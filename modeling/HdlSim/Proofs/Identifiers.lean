import HdlSim.Proofs.ModelItems

/-!
# The identifiers in a value

The value of an expression is a host expression, and some of its words are identifiers that the
surrounding code gives a meaning to: variables, and functions that are called by their bare names
(`HostExpr.identifiers`).  Each of them stands for something that the expression mentions: a signal
or a constant of the module, a name that the module does not declare, or a function of the runtime
(`Expr.mentions`).  Only in the constructor are signals and constants identifiers; elsewhere they
are members of the model.

Main statement: the identifiers in a value are those of what is mentioned, in order
(`Mirrors.identifiers_eq`).
-/

namespace HdlSim

/-! ### Identifiers in host expressions -/

namespace HostExpr

mutual

/-- The identifiers in an expression.  Members of a value, methods, and functions of the model's own
type are none. -/
def identifiers : HostExpr → List HostName
  | .name n => [n]
  | .field owner _ => owner.identifiers
  | .call f args => f :: identifiersOf args
  | .method receiver _ args => receiver.identifiers ++ identifiersOf args
  | .prefixed _ e => e.identifiers
  | .infixed _ l r => l.identifiers ++ r.identifiers
  | .self | .int _ | .bool _ | .str _ | .strs _ | .selfCall _ => []

/-- The identifiers in some expressions, in order. -/
def identifiersOf : List HostExpr → List HostName
  | [] => []
  | e :: es => e.identifiers ++ identifiersOf es

end

/-- The identifiers in a concatenation. -/
theorem identifiers_concat (front : HostExpr) (parts : List HostExpr) :
    (parts.foldl (fun front part => .method front "concat" [part]) front).identifiers =
      front.identifiers ++ identifiersOf parts := by
  induction parts generalizing front with
  | nil => simp [identifiersOf]
  | cons part parts ih =>
      rw [List.foldl_cons, ih]
      simp [identifiers, identifiersOf]

end HostExpr

open HostExpr

/-! ### What an expression mentions -/

/-- A function of the runtime that makes a value or a type. -/
inductive Maker where
  | int
  | bits
  | boolean
  | string
  | ternary
  | bits3t
  | array3t
deriving DecidableEq

/-- The word by which the function is called. -/
def Maker.text : Maker → String
  | .int => "int"
  | .bits => "bits"
  | .boolean => "boolean"
  | .string => "string"
  | .ternary => "ternary"
  | .bits3t => "bits3t"
  | .array3t => "array3t"

/-- What an identifier stands for. -/
inductive Mention where
  /-- A signal or a constant of the module. -/
  | own (name : Ident)
  /-- Something that the module does not provide: a name without a meaning in its scope, a function
  that is called, or a type. -/
  | outer (name : Ident)
  | runtime (maker : Maker)
deriving DecidableEq

/-- The function that makes the value of a literal. -/
def Literal.maker : Literal → Maker
  | .int _ => .int
  | .bits _ _ => .bits
  | .bool _ => .boolean
  | .str _ => .string

namespace Scope

/-- What a name in the place of a value mentions.  Types and members of enumerations are functions
of the model's own type. -/
def mention (scope : Scope) (n : Ident) : List Mention :=
  match scope.get? n with
  | some .proxy | some .constant => [.own n]
  | some .type | some (.enumMember _) => []
  | none => [.outer n]

/-- What the name of a type mentions. -/
def typeMention (scope : Scope) (n : Ident) : List Mention :=
  if scope.get? n = some .type then [] else [.outer n]

end Scope

mutual

/-- What an expression mentions, in the order of its value. -/
def Expr.mentions (scope : Scope) : Expr → List Mention
  | .name n => scope.mention n
  | .literal v => [.runtime v.maker]
  | .unary _ a => a.mentions scope
  | .binary _ a b => a.mentions scope ++ b.mentions scope
  | .ternary c a b =>
    .runtime .ternary :: (c.mentions scope ++ a.mentions scope ++ b.mentions scope)
  | .index a i => a.mentions scope ++ i.mentions scope
  | .slice a h l => a.mentions scope ++ h.mentions scope ++ l.mentions scope
  | .concat parts => Expr.mentionsOf scope parts
  | .cast a t => a.mentions scope ++ t.mentions scope
  | .call f args => .outer f :: Expr.mentionsOf scope args
  | .edge _ a => a.mentions scope
  | .type t => t.mentions scope

/-- What some expressions mention, in order. -/
def Expr.mentionsOf (scope : Scope) : List Expr → List Mention
  | [] => []
  | e :: es => e.mentions scope ++ Expr.mentionsOf scope es

/-- What a type mentions. -/
def Ty.mentions (scope : Scope) : Ty → List Mention
  | .bits _ _ => [.runtime .bits3t]
  | .array element size => .runtime .array3t :: (element.mentions scope ++ size.mentions scope)
  | .named n => scope.typeMention n
  | .enum _ | .typeOfTypes => []

end

/-- The name denotes a signal or a constant. -/
def Scope.Owns (scope : Scope) (n : Ident) : Prop :=
  scope.get? n = some .proxy ∨ scope.get? n = some .constant

section

variable {scope : Scope} {n : Ident}

/-- A name that is mentioned as one's own is owned. -/
private theorem Scope.owns_of_mem_mention {name : Ident} (h : .own n ∈ scope.mention name) :
    scope.Owns n := by
  unfold mention at h
  split at h
  · next hkind =>
      obtain rfl : n = name := by simpa using h
      exact .inl hkind
  · next hkind =>
      obtain rfl : n = name := by simpa using h
      exact .inr hkind
  all_goals simp at h

/-- A type is not mentioned as one's own. -/
private theorem Scope.not_own_mem_typeMention {name : Ident} : .own n ∉ scope.typeMention name := by
  unfold typeMention
  split <;> simp

mutual

/-- What is mentioned as the module's own is a signal or a constant. -/
theorem Expr.owns_of_mem : ∀ {e : Expr}, .own n ∈ e.mentions scope → scope.Owns n
  | .name _, h => Scope.owns_of_mem_mention h
  | .literal _, h => by simp [Expr.mentions] at h
  | .unary _ a, h => a.owns_of_mem h
  | .binary _ a b, h => by
      rcases List.mem_append.mp h with h | h
      · exact a.owns_of_mem h
      · exact b.owns_of_mem h
  | .ternary c a b, h => by
      simp only [Expr.mentions, List.mem_cons, List.mem_append, reduceCtorEq, false_or] at h
      rcases h with (h | h) | h
      · exact c.owns_of_mem h
      · exact a.owns_of_mem h
      · exact b.owns_of_mem h
  | .index a i, h => by
      rcases List.mem_append.mp h with h | h
      · exact a.owns_of_mem h
      · exact i.owns_of_mem h
  | .slice a high low, h => by
      simp only [Expr.mentions, List.mem_append] at h
      rcases h with (h | h) | h
      · exact a.owns_of_mem h
      · exact high.owns_of_mem h
      · exact low.owns_of_mem h
  | .concat parts, h => Expr.owns_of_memOf h
  | .cast a type, h => by
      rcases List.mem_append.mp h with h | h
      · exact a.owns_of_mem h
      · exact type.owns_of_mem h
  | .call _ args, h => by
      simp only [Expr.mentions, List.mem_cons, reduceCtorEq, false_or] at h
      exact Expr.owns_of_memOf h
  | .edge _ a, h => a.owns_of_mem h
  | .type type, h => type.owns_of_mem h

/-- What expressions mention as their own is owned. -/
theorem Expr.owns_of_memOf : ∀ {es : List Expr}, .own n ∈ Expr.mentionsOf scope es → scope.Owns n
  | [], h => by simp [Expr.mentionsOf] at h
  | e :: es, h => by
      rcases List.mem_append.mp h with h | h
      · exact e.owns_of_mem h
      · exact Expr.owns_of_memOf h

/-- What a type mentions as its own is owned. -/
theorem Ty.owns_of_mem : ∀ {type : Ty}, .own n ∈ type.mentions scope → scope.Owns n
  | .bits _ _, h => by simp [Ty.mentions] at h
  | .array element size, h => by
      simp only [Ty.mentions, List.mem_cons, List.mem_append, reduceCtorEq, false_or] at h
      rcases h with h | h
      · exact element.owns_of_mem h
      · exact size.owns_of_mem h
  | .named _, h => absurd h Scope.not_own_mem_typeMention
  | .enum _, h => by simp [Ty.mentions] at h
  | .typeOfTypes, h => by simp [Ty.mentions] at h

end

end

/-- The identifier for what is mentioned, if it is written as one at this site. -/
def Site.identifier? (s : Site) : Mention → Option HostName
  | .own n => if s.place = .constructor then some (s.context.names.hostOf n) else none
  | .outer n => some (s.context.names.hostOf n)
  | .runtime maker => some (.plain maker.text)

/-! ### The identifiers in values -/

/-- The identifier of a name that has a text. -/
theorem NameTable.hostOf_eq {names : NameTable} {n : Ident} {text : String}
    (h : names.resolve? n = some text) : names.hostOf n = .escape text := by
  simp [NameTable.hostOf, NameTable.textOf, h]

section

variable {s : Site}

/-- The proxy of a signal is an identifier in the constructor only. -/
theorem Site.ProxyReference.identifiers_eq {n : Ident} {t : HostExpr} (h : s.ProxyReference n t) :
    t.identifiers = [Mention.own n].filterMap s.identifier? := by
  cases h with
  | inConstructor hplace hname =>
      simp [HostExpr.identifiers, identifier?, hplace, NameTable.hostOf_eq hname]
  | inProcess hplace hname => simp [HostExpr.identifiers, identifier?, hplace]

/-- The identifiers in what a name refers to are those of its mention. -/
theorem Site.NameReference.identifiers_eq {n : Ident} {t : HostExpr} (h : s.NameReference n t) :
    t.identifiers = (s.scope.mention n).filterMap s.identifier? := by
  cases h with
  | signal hkind hproxy =>
      rw [Scope.mention, hkind, ← hproxy.identifiers_eq]
      simp [HostExpr.identifiers, identifiersOf]
  | constantInConstructor hkind hplace hname =>
      simp [Scope.mention, hkind, HostExpr.identifiers, identifiersOf, identifier?, hplace,
        NameTable.hostOf_eq hname]
  | constantInProcess hkind hplace hname =>
      simp [Scope.mention, hkind, HostExpr.identifiers, identifiersOf, identifier?, hplace]
  | type hkind hname => simp [Scope.mention, hkind, HostExpr.identifiers]
  | member hkind hname htype =>
      simp [Scope.mention, hkind, HostExpr.identifiers, identifiersOf]
  | free hkind hname =>
      simp [Scope.mention, hkind, HostExpr.identifiers, identifier?, NameTable.hostOf_eq hname]

/-- The only identifier in a literal is the function that makes it. -/
theorem LiteralMirrors.identifiers_eq {v : Literal} {t : HostExpr} (h : LiteralMirrors v t) :
    t.identifiers = [.plain v.maker.text] := by
  cases h <;> simp [HostExpr.identifiers, identifiersOf, Literal.maker, Maker.text]

/-- An operator in front brings no identifier. -/
theorem UnaryOp.node_identifiers (op : UnaryOp) (a : HostExpr) :
    (op.node a).identifiers = a.identifiers := by
  unfold UnaryOp.node
  split <;> simp [HostExpr.identifiers, identifiersOf]

/-- An operator between two brings no identifier. -/
theorem BinaryOp.node_identifiers (op : BinaryOp) (l r : HostExpr) :
    (op.node l r).identifiers = l.identifiers ++ r.identifiers := by
  unfold BinaryOp.node
  split <;> simp [HostExpr.identifiers, identifiersOf]

mutual

/-- **The identifiers in a value** are those of what its expression mentions. -/
theorem Mirrors.identifiers_eq : ∀ {e : Expr} {t : HostExpr}, Mirrors s e t →
    t.identifiers = (e.mentions s.scope).filterMap s.identifier?
  | _, _, .name hn => hn.identifiers_eq
  | _, _, .literal hv => hv.identifiers_eq
  | _, _, .unary op ha => by
      rw [op.node_identifiers, ha.identifiers_eq, Expr.mentions]
  | _, _, .binary op ha hb => by
      rw [op.node_identifiers, ha.identifiers_eq, hb.identifiers_eq, Expr.mentions,
        List.filterMap_append]
  | _, _, .ternary hc ha hb => by
      simp [HostExpr.identifiers, identifiersOf, Expr.mentions, Site.identifier?, Maker.text,
        hc.identifiers_eq, ha.identifiers_eq, hb.identifiers_eq]
  | _, _, .index ha hi => by
      simp [HostExpr.identifiers, identifiersOf, Expr.mentions, ha.identifiers_eq,
        hi.identifiers_eq]
  | _, _, .slice ha hh hl => by
      simp [HostExpr.identifiers, identifiersOf, Expr.mentions, ha.identifiers_eq,
        hh.identifiers_eq, hl.identifiers_eq]
  | _, _, .concat ha has => by
      rw [identifiers_concat, ha.identifiers_eq, has.identifiers_eq, Expr.mentions,
        Expr.mentionsOf, List.filterMap_append]
  | _, _, .cast ha htype => by
      simp [HostExpr.identifiers, identifiersOf, Expr.mentions, ha.identifiers_eq,
        htype.identifiers_eq]
  | _, _, .call hf has => by
      simp [HostExpr.identifiers, Expr.mentions, Site.identifier?, has.identifiers_eq,
        NameTable.hostOf_eq hf]
  | _, _, .edge edge hkind hn => by
      simp [HostExpr.identifiers, identifiersOf, Expr.mentions, Scope.mention, hkind,
        hn.identifiers_eq]
  | _, _, .type htype => htype.identifiers_eq

/-- The identifiers in some values are those of what the expressions mention. -/
theorem MirrorsAll.identifiers_eq : ∀ {es : List Expr} {ts : List HostExpr}, MirrorsAll s es ts →
    identifiersOf ts = (Expr.mentionsOf s.scope es).filterMap s.identifier?
  | _, _, .nil => rfl
  | _, _, .cons ha has => by
      rw [identifiersOf, ha.identifiers_eq, has.identifiers_eq, Expr.mentionsOf,
        List.filterMap_append]

/-- The identifiers in the value of a type are those of what the type mentions. -/
theorem TypeMirrors.identifiers_eq : ∀ {type : Ty} {t : HostExpr}, TypeMirrors s type t →
    t.identifiers = (type.mentions s.scope).filterMap s.identifier?
  | _, _, .bits width signed => rfl
  | _, _, .array helement hsize => by
      simp [HostExpr.identifiers, identifiersOf, Ty.mentions, Site.identifier?, Maker.text,
        helement.identifiers_eq, hsize.identifiers_eq]
  | _, _, .own hkind hn => by
      simp [HostExpr.identifiers, Ty.mentions, Scope.typeMention, hkind]
  | _, _, .foreign hkind hn => by
      simp [HostExpr.identifiers, identifiersOf, Ty.mentions, Scope.typeMention, hkind,
        Site.identifier?, NameTable.hostOf_eq hn]

end

end

end HdlSim
