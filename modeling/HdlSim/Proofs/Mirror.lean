import HdlSim.Proofs.RoundTrip
import HdlSim.Proofs.Script
import HdlSim.Site

/-!
# Values mirror expressions

What the value of an expression is, said node by node and without reference to how it is computed
(`Mirrors`, and `TypeMirrors` for types): the form of each operator, the receiver and the arguments
of each method, concatenation as a fold from the left, and what each name refers to at its site.
The value of an expression mirrors it (`Site.value_mirrors`, `Site.typeValue_mirrors`).

Every such tree is an operand (`Mirrors.operand`), so its text is read back as the tree by the
grammar of the host language, and no context can regroup it (`value_text_mirrors`).
-/

namespace HdlSim

/-! ### Names -/

/-- A name has the text that the table has for it. -/
theorem Context.name_eq_ok_iff {c : Context} {n : Ident} {text : String} :
    c.name n = .ok text ↔ c.names.resolve? n = some text := by
  unfold Context.name
  cases c.names.resolve? n with
  | none => simp
  | some found => simp

/-- A name has the identifier for its text. -/
theorem Context.host_eq_ok_iff {c : Context} {n : Ident} {host : HostName} :
    c.host n = .ok host ↔ ∃ text, c.names.resolve? n = some text ∧ HostName.escape text = host := by
  unfold Context.host
  rw [Except.bind_eq_ok_iff]
  simp only [Context.name_eq_ok_iff]
  simp only [Except.pure_eq_ok_iff]

/-- The identifier for a name is read back. -/
theorem Context.isProper_host {c : Context} {n : Ident} {host : HostName}
    (h : c.host n = .ok host) : host.IsProper := by
  obtain ⟨text, -, rfl⟩ := Context.host_eq_ok_iff.mp h
  exact HostName.escape_isProper text

/-- The identifiers for some names are read back. -/
theorem Context.isProper_hosts {c : Context} {ns : List Ident} {hosts : List HostName}
    (h : c.hosts ns = .ok hosts) : ∀ host ∈ hosts, host.IsProper := by
  intro host hhost
  obtain ⟨n, -, hn⟩ := Except.exists_of_mem_mapM h hhost
  exact isProper_host hn

/-- The name of the model is read back. -/
theorem Context.isProper_unit (c : Context) : c.unit.IsProper := HostName.escape_isProper c.module

/-- No keyword ends the way the name of the bundle of proxies does. -/
theorem Context.isProper_io (c : Context) : c.io.IsProper := by
  have hword : isName c.unit.word.toList = true := HostName.isName_escape_word c.module
  obtain ⟨hne, hhead, hall⟩ := isName_iff.mp hword
  have hname : isName (c.unit.word ++ "Io").toList = true := by
    obtain ⟨d, ds, hform⟩ := List.exists_cons_of_ne_nil hne
    rw [hform] at hhead hall
    refine isName_iff.mpr ⟨by simp, ?_, ?_⟩
    · simpa [hform] using hhead
    · simpa [hform, HostName.isWordChar] using hall
  have hend : "Io".toList <:+ (c.unit.word ++ "Io").toList := by
    rw [String.toList_append]
    exact List.suffix_append _ _
  have hother : ∀ w ∈ HostName.neverRaw ++ HostName.languageKeywords,
      ¬ "Io".toList <:+ w.toList := by decide
  refine HostName.isProper_iff.mpr (.inl ⟨HostName.isWord_iff.mpr hname, ?_, fun _ => ?_⟩)
  · intro hmem
    exact hother _ (List.mem_append_left _ hmem) hend
  · intro hmem
    exact hother _ (List.mem_append_right _ hmem) hend

namespace Site

/-- The proxy of a signal: a variable of the constructor, a field of the bundle in a process. -/
inductive ProxyReference (s : Site) (n : Ident) : HostExpr → Prop
  | inConstructor {text : String} (hplace : s.place = .constructor)
      (hname : s.context.names.resolve? n = some text) :
      ProxyReference s n (.name (.escape text))
  | inProcess {text : String} (hplace : s.place = .process)
      (hname : s.context.names.resolve? n = some text) :
      ProxyReference s n (.field (.field .self (.plain "io")) (.escape text))

/-- The value that a name refers to. -/
inductive NameReference (s : Site) (n : Ident) : HostExpr → Prop
  | signal {proxy : HostExpr} (hkind : s.scope.get? n = some .proxy)
      (hproxy : ProxyReference s n proxy) : NameReference s n (.method proxy "read" [])
  | constantInConstructor {text : String} (hkind : s.scope.get? n = some .constant)
      (hplace : s.place = .constructor) (hname : s.context.names.resolve? n = some text) :
      NameReference s n (.method (.name (.escape text)) "clone" [])
  | constantInProcess {text : String} (hkind : s.scope.get? n = some .constant)
      (hplace : s.place = .process) (hname : s.context.names.resolve? n = some text) :
      NameReference s n (.method (.field .self (.escape text)) "clone" [])
  | type {text : String} (hkind : s.scope.get? n = some .type)
      (hname : s.context.names.resolve? n = some text) :
      NameReference s n (.selfCall (.escape text))
  | member {type : Ident} {text typeText : String}
      (hkind : s.scope.get? n = some (.enumMember type))
      (hname : s.context.names.resolve? n = some text)
      (htype : s.context.names.resolve? type = some typeText) :
      NameReference s n (.method (.selfCall (.escape typeText)) "member" [.str text])
  /-- A name that the module does not declare. -/
  | free {text : String} (hkind : s.scope.get? n = none)
      (hname : s.context.names.resolve? n = some text) : NameReference s n (.name (.escape text))

/-- Where there is no model, nothing of it can be reached. -/
@[simp] theorem outside_ne_ok {α : Type} {s : Site} {n : Ident} {a : α} :
    s.outside n = .ok a ↔ False := by
  unfold outside
  rw [Except.bind_eq_ok_iff]
  simp

/-- How a proxy is reached. -/
theorem proxyPath_eq_ok_iff {s : Site} {n : Ident} {h : HostExpr} :
    s.proxyPath n = .ok h ↔ ProxyReference s n h := by
  unfold proxyPath
  rw [Except.bind_eq_ok_iff]
  simp only [Context.host_eq_ok_iff]
  constructor
  · rintro ⟨host, ⟨text, hname, rfl⟩, hpath⟩
    cases hplace : s.place with
    | constructor =>
        obtain rfl : HostExpr.name (.escape text) = h := by simpa [hplace] using hpath
        exact .inConstructor hplace hname
    | process =>
        obtain rfl : HostExpr.field .proxies (.escape text) = h := by simpa [hplace] using hpath
        exact .inProcess hplace hname
    | static => simp [hplace] at hpath
  · intro h
    cases h with
    | @inConstructor text hplace hname => exact ⟨_, ⟨text, hname, rfl⟩, by simp [hplace]⟩
    | @inProcess text hplace hname =>
        exact ⟨_, ⟨text, hname, rfl⟩, by simp [hplace, HostExpr.proxies]⟩

/-- The proxy of a name that has to be a signal. -/
theorem proxyOf_eq_ok_iff {s : Site} {n : Ident} {h : HostExpr} :
    s.proxyOf n = .ok h ↔ s.scope.get? n = some .proxy ∧ ProxyReference s n h := by
  unfold proxyOf
  split
  · rename_i hkind
    simp [hkind, proxyPath_eq_ok_iff]
  · rename_i hkind
    rw [Except.bind_eq_ok_iff]
    simp only [Except.throw_ne_ok, and_false, exists_false, false_iff]
    exact fun hproxy => hkind hproxy.1

/-- An expression has a proxy if it is the name of a signal. -/
private theorem proxy_eq_ok_iff {s : Site} {e : Expr} {h : HostExpr} :
    s.proxy e = .ok h ↔
      ∃ n, e = .name n ∧ s.scope.get? n = some .proxy ∧ ProxyReference s n h := by
  unfold proxy
  cases e with
  | name n => simp [Expr.asName?, proxyOf_eq_ok_iff]
  | _ => simp [Expr.asName?]

/-- The value of a name. -/
theorem nameValue_eq_ok_iff {s : Site} {n : Ident} {h : HostExpr} :
    s.nameValue n = .ok h ↔ NameReference s n h := by
  unfold nameValue
  rw [Except.bind_eq_ok_iff]
  simp only [Context.host_eq_ok_iff]
  constructor
  · rintro ⟨host, ⟨text, hname, rfl⟩, hvalue⟩
    cases hkind : s.scope.get? n with
    | none =>
        obtain rfl : HostExpr.name (.escape text) = h := by simpa [hkind] using hvalue
        exact .free hkind hname
    | some kind =>
        simp only [hkind] at hvalue
        cases kind with
        | proxy =>
            obtain ⟨proxy, hproxy, hread⟩ := Except.bind_eq_ok_iff.mp hvalue
            obtain rfl := Except.pure_eq_ok_iff.mp hread
            exact .signal hkind (proxyPath_eq_ok_iff.mp hproxy)
        | constant =>
            cases hplace : s.place with
            | constructor =>
                obtain rfl : HostExpr.method (.name (.escape text)) "clone" [] = h := by
                  simpa [hplace] using hvalue
                exact .constantInConstructor hkind hplace hname
            | process =>
                obtain rfl : HostExpr.method (.field .self (.escape text)) "clone" [] = h := by
                  simpa [hplace] using hvalue
                exact .constantInProcess hkind hplace hname
            | static => simp [hplace] at hvalue
        | type =>
            obtain rfl := Except.pure_eq_ok_iff.mp hvalue
            exact .type hkind hname
        | enumMember type =>
            obtain ⟨typeHost, hhost, hvalue⟩ := Except.bind_eq_ok_iff.mp hvalue
            obtain ⟨typeText, htype, rfl⟩ := Context.host_eq_ok_iff.mp hhost
            obtain ⟨member, hmember, hvalue⟩ := Except.bind_eq_ok_iff.mp hvalue
            obtain rfl : text = member := by
              simpa [hname] using Context.name_eq_ok_iff.mp hmember
            obtain rfl := Except.pure_eq_ok_iff.mp hvalue
            exact .member hkind hname htype
  · intro h
    cases h with
    | signal hkind hproxy =>
        have hpath := proxyPath_eq_ok_iff.mpr hproxy
        obtain ⟨text, hname⟩ : ∃ text, s.context.names.resolve? n = some text := by
          cases hproxy with
          | inConstructor hplace hname => exact ⟨_, hname⟩
          | inProcess hplace hname => exact ⟨_, hname⟩
        refine ⟨_, ⟨text, hname, rfl⟩, ?_⟩
        simp only [hkind]
        exact Except.bind_eq_ok_iff.mpr ⟨_, hpath, rfl⟩
    | @constantInConstructor text hkind hplace hname =>
        exact ⟨_, ⟨text, hname, rfl⟩, by simp [hkind, hplace]⟩
    | @constantInProcess text hkind hplace hname =>
        exact ⟨_, ⟨text, hname, rfl⟩, by simp [hkind, hplace]⟩
    | @type text hkind hname => exact ⟨_, ⟨text, hname, rfl⟩, by simp [hkind]⟩
    | @member type text typeText hkind hname htype =>
        refine ⟨_, ⟨text, hname, rfl⟩, ?_⟩
        simp only [hkind]
        refine Except.bind_eq_ok_iff.mpr ⟨_, Context.host_eq_ok_iff.mpr ⟨_, htype, rfl⟩, ?_⟩
        exact Except.bind_eq_ok_iff.mpr ⟨_, Context.name_eq_ok_iff.mpr hname, rfl⟩
    | @free text hkind hname => exact ⟨_, ⟨text, hname, rfl⟩, by simp [hkind]⟩

end Site

/-! ### Operators and literals -/

/-- How an operator on one operand is written: in front of it, or as a method. -/
def UnaryOp.form : UnaryOp → HostPrefix ⊕ String
  | .not => .inl .not
  | .neg => .inl .neg
  | .logicNot => .inr "logic_not"
  | .redAnd => .inr "reduce_and"
  | .redOr => .inr "reduce_or"
  | .redXor => .inr "reduce_xor"

/-- How an operator on two operands is written: between them, or as a method of the left one. -/
def BinaryOp.form : BinaryOp → HostInfix ⊕ String
  | .add => .inl .add
  | .sub => .inl .sub
  | .mul => .inl .mul
  | .div => .inl .div
  | .mod => .inl .rem
  | .and => .inl .and
  | .or => .inl .or
  | .xor => .inl .xor
  | .shl => .inl .shl
  | .shr => .inl .shr
  | .pow => .inr "pow"
  | .eq => .inr "hdl_eq"
  | .ne => .inr "hdl_ne"
  | .lt => .inr "hdl_lt"
  | .le => .inr "hdl_le"
  | .gt => .inr "hdl_gt"
  | .ge => .inr "hdl_ge"
  | .logicAnd => .inr "logic_and"
  | .logicOr => .inr "logic_or"

/-- The method that tells a transition. -/
def ClockEdge.form : ClockEdge → String
  | .rising => "on_rising_edge"
  | .falling => "on_falling_edge"

/-- The application of an operator on one operand. -/
def UnaryOp.node (op : UnaryOp) (a : HostExpr) : HostExpr :=
  match op.form with
  | .inl sign => .prefixed sign a
  | .inr method => .method a method []

/-- The application of an operator on two operands, the left one first. -/
def BinaryOp.node (op : BinaryOp) (l r : HostExpr) : HostExpr :=
  match op.form with
  | .inl sign => .infixed sign l r
  | .inr method => .method l method [r]

/-- An operator in front becomes the call that stands for it. -/
theorem UnaryOp.apply_eq_node (op : UnaryOp) (a : HostExpr) : op.apply a = op.node a := by
  cases op <;> rfl

/-- An operator between two becomes the call or operator that stands for it. -/
theorem BinaryOp.apply_eq_node (op : BinaryOp) (l r : HostExpr) : op.apply l r = op.node l r := by
  cases op <;> rfl

/-- A clock edge becomes the method that detects it. -/
theorem ClockEdge.apply_eq_method (edge : ClockEdge) (a : HostExpr) :
    edge.apply a = .method a edge.form [] := by
  cases edge <;> rfl

/-- The value of a literal: a call of the runtime with what the literal says.  Digits of bit strings
are in lower case. -/
inductive LiteralMirrors : Literal → HostExpr → Prop
  | int (v : Int64) : LiteralMirrors (.int v) (.call (.plain "int") [.int v.toInt])
  | bits (width : UInt32) {digits : String} (hdigits : ∀ c ∈ digits.toList, c ∈ "01xXzZ".toList) :
      LiteralMirrors (.bits width digits)
        (.call (.plain "bits")
          [.int width.toNat, .str (String.ofList (digits.toList.map Char.toLower))])
  | bool (b : Bool) : LiteralMirrors (.bool b) (.call (.plain "boolean") [.bool b])
  | str (text : String) : LiteralMirrors (.str text) (.call (.plain "string") [.str text])

/-- The digits of bit strings. -/
theorem Site.isBitDigit_iff {c : Char} :
    Site.isBitDigit c = true ↔ c ∈ "01xXzZ".toList := by
  simp [Site.isBitDigit, or_assoc]

/-- A literal has a value if and only if the value mirrors it. -/
theorem Site.literalValue_eq_ok_iff {s : Site} {v : Literal} {h : HostExpr} :
    s.literalValue v = .ok h ↔ LiteralMirrors v h := by
  cases v with
  | int v =>
      simp only [literalValue, Except.pure_eq_ok_iff]
      exact ⟨fun hv => hv ▸ .int v, fun hv => by cases hv; rfl⟩
  | bool b =>
      simp only [literalValue, Except.pure_eq_ok_iff]
      exact ⟨fun hv => hv ▸ .bool b, fun hv => by cases hv; rfl⟩
  | str text =>
      simp only [literalValue, Except.pure_eq_ok_iff]
      exact ⟨fun hv => hv ▸ .str text, fun hv => by cases hv; rfl⟩
  | bits width digits =>
      unfold literalValue
      constructor
      · intro hv
        cases hfind : digits.toList.find? fun c => !isBitDigit c with
        | some bad => simp [hfind] at hv
        | none =>
            simp only [hfind, Except.pure_eq_ok_iff] at hv
            rw [← hv]
            refine .bits width fun c hc => isBitDigit_iff.mp ?_
            simpa using List.find?_eq_none.mp hfind c hc
      · intro hv
        cases hv with
        | bits width hdigits =>
            have hfind : (digits.toList.find? fun c => !isBitDigit c) = none := by
              refine List.find?_eq_none.mpr fun c hc => ?_
              simpa using isBitDigit_iff.mpr (hdigits c hc)
            simp only [hfind]
            rfl

/-! ### Expressions and types -/

mutual

/-- The tree is the value of the expression at the site. -/
inductive Mirrors (s : Site) : Expr → HostExpr → Prop
  | name {n : Ident} {t : HostExpr} (hn : s.NameReference n t) : Mirrors s (.name n) t
  | literal {v : Literal} {t : HostExpr} (hv : LiteralMirrors v t) : Mirrors s (.literal v) t
  | unary {a : Expr} {t : HostExpr} (op : UnaryOp) (ha : Mirrors s a t) :
      Mirrors s (.unary op a) (op.node t)
  | binary {a b : Expr} {l r : HostExpr} (op : BinaryOp) (ha : Mirrors s a l)
      (hb : Mirrors s b r) : Mirrors s (.binary op a b) (op.node l r)
  | ternary {c a b : Expr} {t l r : HostExpr} (hc : Mirrors s c t) (ha : Mirrors s a l)
      (hb : Mirrors s b r) : Mirrors s (.ternary c a b) (.call (.plain "ternary") [t, l, r])
  | index {a i : Expr} {t u : HostExpr} (ha : Mirrors s a t) (hi : Mirrors s i u) :
      Mirrors s (.index a i) (.method t "index" [u])
  | slice {a h l : Expr} {t u v : HostExpr} (ha : Mirrors s a t) (hh : Mirrors s h u)
      (hl : Mirrors s l v) : Mirrors s (.slice a h l) (.method t "slice" [u, v])
  /-- The most significant part is the innermost receiver. -/
  | concat {a : Expr} {as : List Expr} {t : HostExpr} {ts : List HostExpr} (ha : Mirrors s a t)
      (has : MirrorsAll s as ts) :
      Mirrors s (.concat (a :: as)) (ts.foldl (fun front part => .method front "concat" [part]) t)
  | cast {a : Expr} {type : Ty} {t u : HostExpr} (ha : Mirrors s a t)
      (htype : TypeMirrors s type u) : Mirrors s (.cast a type) (.method t "reinterpret_cast" [u])
  | call {f : Ident} {text : String} {as : List Expr} {ts : List HostExpr}
      (hf : s.context.names.resolve? f = some text) (has : MirrorsAll s as ts) :
      Mirrors s (.call f as) (.call (.escape text) ts)
  | edge {n : Ident} {t : HostExpr} (edge : ClockEdge) (hkind : s.scope.get? n = some .proxy)
      (hn : s.ProxyReference n t) : Mirrors s (.edge edge (.name n)) (.method t edge.form [])
  | type {type : Ty} {t : HostExpr} (htype : TypeMirrors s type t) : Mirrors s (.type type) t

/-- The trees are the values of the expressions, in order. -/
inductive MirrorsAll (s : Site) : List Expr → List HostExpr → Prop
  | nil : MirrorsAll s [] []
  | cons {a : Expr} {as : List Expr} {t : HostExpr} {ts : List HostExpr} (ha : Mirrors s a t)
      (has : MirrorsAll s as ts) : MirrorsAll s (a :: as) (t :: ts)

/-- The tree stands for the type at the site. -/
inductive TypeMirrors (s : Site) : Ty → HostExpr → Prop
  | bits (width : UInt32) (signed : Bool) :
      TypeMirrors s (.bits width signed) (.call (.plain "bits3t") [.int width.toNat, .bool signed])
  | array {element : Ty} {size : Expr} {t u : HostExpr} (helement : TypeMirrors s element t)
      (hsize : Mirrors s size u) :
      TypeMirrors s (.array element size) (.call (.plain "array3t") [t, u])
  | own {n : Ident} {text : String} (hkind : s.scope.get? n = some .type)
      (hn : s.context.names.resolve? n = some text) :
      TypeMirrors s (.named n) (.selfCall (.escape text))
  /-- A name that is no type of the module is a type of the surroundings. -/
  | foreign {n : Ident} {text : String} (hkind : s.scope.get? n ≠ some .type)
      (hn : s.context.names.resolve? n = some text) :
      TypeMirrors s (.named n) (.call (.escape text) [])

end

namespace Site

mutual

/-- What the value of an expression is. -/
theorem value_mirrors {s : Site} : ∀ {e : Expr} {h : HostExpr}, s.value e = .ok h → Mirrors s e h
  | .name n, h, hv => .name (nameValue_eq_ok_iff.mp hv)
  | .literal v, h, hv => .literal (literalValue_eq_ok_iff.mp hv)
  | .unary op a, h, hv => by
      obtain ⟨t, ha, hv⟩ := Except.bind_eq_ok_iff.mp hv
      rw [← Except.pure_eq_ok_iff.mp hv, UnaryOp.apply_eq_node]
      exact .unary op (value_mirrors ha)
  | .binary op a b, h, hv => by
      obtain ⟨l, ha, hv⟩ := Except.bind_eq_ok_iff.mp hv
      obtain ⟨r, hb, hv⟩ := Except.bind_eq_ok_iff.mp hv
      rw [← Except.pure_eq_ok_iff.mp hv, BinaryOp.apply_eq_node]
      exact .binary op (value_mirrors ha) (value_mirrors hb)
  | .ternary c a b, h, hv => by
      obtain ⟨t, hc, hv⟩ := Except.bind_eq_ok_iff.mp hv
      obtain ⟨l, ha, hv⟩ := Except.bind_eq_ok_iff.mp hv
      obtain ⟨r, hb, hv⟩ := Except.bind_eq_ok_iff.mp hv
      rw [← Except.pure_eq_ok_iff.mp hv]
      exact .ternary (value_mirrors hc) (value_mirrors ha) (value_mirrors hb)
  | .index a i, h, hv => by
      obtain ⟨t, ha, hv⟩ := Except.bind_eq_ok_iff.mp hv
      obtain ⟨u, hi, hv⟩ := Except.bind_eq_ok_iff.mp hv
      rw [← Except.pure_eq_ok_iff.mp hv]
      exact .index (value_mirrors ha) (value_mirrors hi)
  | .slice a high low, h, hv => by
      obtain ⟨t, ha, hv⟩ := Except.bind_eq_ok_iff.mp hv
      obtain ⟨u, hhigh, hv⟩ := Except.bind_eq_ok_iff.mp hv
      obtain ⟨v, hlow, hv⟩ := Except.bind_eq_ok_iff.mp hv
      rw [← Except.pure_eq_ok_iff.mp hv]
      exact .slice (value_mirrors ha) (value_mirrors hhigh) (value_mirrors hlow)
  | .concat [], h, hv => by simp [value] at hv
  | .concat (a :: as), h, hv => by
      obtain ⟨t, ha, hv⟩ := Except.bind_eq_ok_iff.mp hv
      obtain ⟨ts, has, rfl⟩ := concatValue_mirrors hv
      exact .concat (value_mirrors ha) has
  | .cast a type, h, hv => by
      obtain ⟨t, ha, hv⟩ := Except.bind_eq_ok_iff.mp hv
      obtain ⟨u, htype, hv⟩ := Except.bind_eq_ok_iff.mp hv
      rw [← Except.pure_eq_ok_iff.mp hv]
      exact .cast (value_mirrors ha) (typeValue_mirrors htype)
  | .call f as, h, hv => by
      obtain ⟨ts, has, hv⟩ := Except.bind_eq_ok_iff.mp hv
      obtain ⟨host, hf, hv⟩ := Except.bind_eq_ok_iff.mp hv
      obtain ⟨text, hname, rfl⟩ := Context.host_eq_ok_iff.mp hf
      rw [← Except.pure_eq_ok_iff.mp hv]
      exact .call hname (values_mirror has)
  | .edge edge a, h, hv => by
      obtain ⟨t, ha, hresult⟩ := Except.bind_eq_ok_iff.mp hv
      obtain ⟨n, rfl, hkind, hn⟩ := proxy_eq_ok_iff.mp ha
      rw [← Except.pure_eq_ok_iff.mp hresult, ClockEdge.apply_eq_method]
      exact .edge edge hkind hn
  | .type type, h, hv => .type (typeValue_mirrors hv)

/-- The values of some expressions mirror them one by one. -/
theorem values_mirror {s : Site} :
    ∀ {es : List Expr} {ts : List HostExpr}, s.values es = .ok ts → MirrorsAll s es ts
  | [], ts, hv => by
      obtain rfl : [] = ts := by simpa [values] using hv
      exact .nil
  | e :: es, ts, hv => by
      obtain ⟨t, he, hv⟩ := Except.bind_eq_ok_iff.mp hv
      obtain ⟨ts, hes, hv⟩ := Except.bind_eq_ok_iff.mp hv
      rw [← Except.pure_eq_ok_iff.mp hv]
      exact .cons (value_mirrors he) (values_mirror hes)

/-- A concatenation becomes a chain of calls, from the front. -/
theorem concatValue_mirrors {s : Site} :
    ∀ {front h : HostExpr} {es : List Expr}, s.concatValue front es = .ok h →
      ∃ ts, MirrorsAll s es ts ∧
        ts.foldl (fun front part => .method front "concat" [part]) front = h
  | front, h, [], hv => ⟨[], .nil, Except.pure_eq_ok_iff.mp hv⟩
  | front, h, e :: es, hv => by
      obtain ⟨t, he, hv⟩ := Except.bind_eq_ok_iff.mp hv
      obtain ⟨ts, hes, hfold⟩ := concatValue_mirrors hv
      exact ⟨t :: ts, .cons (value_mirrors he) hes, hfold⟩

/-- What the value that stands for a type is. -/
theorem typeValue_mirrors {s : Site} :
    ∀ {type : Ty} {h : HostExpr}, s.typeValue type = .ok h → TypeMirrors s type h
  | .bits width signed, h, hv => by
      rw [← Except.pure_eq_ok_iff.mp hv]
      exact .bits width signed
  | .array element size, h, hv => by
      obtain ⟨t, helement, hv⟩ := Except.bind_eq_ok_iff.mp hv
      obtain ⟨u, hsize, hv⟩ := Except.bind_eq_ok_iff.mp hv
      rw [← Except.pure_eq_ok_iff.mp hv]
      exact .array (typeValue_mirrors helement) (value_mirrors hsize)
  | .named n, h, hv => by
      obtain ⟨host, hn, hv⟩ := Except.bind_eq_ok_iff.mp hv
      obtain ⟨text, hname, rfl⟩ := Context.host_eq_ok_iff.mp hn
      split at hv
      · rename_i hkind
        rw [← Except.pure_eq_ok_iff.mp hv]
        exact .own hkind hname
      · rename_i hkind
        rw [← Except.pure_eq_ok_iff.mp hv]
        exact .foreign hkind hname
  | .enum members, h, hv => by simp [typeValue] at hv
  | .typeOfTypes, h, hv => by simp [typeValue] at hv

end

/-- The value of an enumeration has the names of its members. -/
theorem enumValue_eq_ok {s : Site} {name : String} {members : List EnumMember} {v : HostExpr}
    (h : s.enumValue name members = .ok v) :
    ∃ labels, s.memberNames members = .ok labels ∧
      v = .runtime "define_enum3t" [.str name, .strs labels] := by
  obtain ⟨labels, hlabels, hv⟩ := Except.bind_eq_ok_iff.mp h
  exact ⟨labels, hlabels, (Except.pure_eq_ok_iff.mp hv).symm⟩

/-- What the value that defines a declared type is: an enumeration of its members, or another
type. -/
theorem typeItemValue_mirrors {s : Site} {t : TypeItem} {v : HostExpr}
    (h : s.typeItemValue t = .ok v) :
    (∃ name labels, s.context.name t.name = .ok name ∧ s.memberNames t.members = .ok labels ∧
      v = .runtime "define_enum3t" [.str name, .strs labels]) ∨
      (t.members = [] ∧ ∃ type, TypeMirrors s type v) := by
  obtain ⟨name, hname, h⟩ := Except.bind_eq_ok_iff.mp h
  cases t with
  | enum d =>
      obtain ⟨labels, hlabels, hv⟩ := enumValue_eq_ok h
      exact .inl ⟨name, labels, hname, hlabels, hv⟩
  | array d => exact .inr ⟨rfl, _, typeValue_mirrors h⟩
  | synonym d =>
      obtain ⟨_, _, _, value, _, _⟩ := d
      dsimp only at h
      split at h
      · obtain ⟨labels, hlabels, hv⟩ := enumValue_eq_ok h
        exact .inl ⟨name, labels, hname, hlabels, hv⟩
      · simp at h
      · rename_i type hother _ _
        refine .inr ⟨?_, type, typeValue_mirrors h⟩
        cases type with
        | enum members => exact absurd rfl (hother members)
        | _ => rfl
      · simp at h

end Site

/-! ### Values are operands -/

open HostExpr

/-- A proxy is an operand. -/
theorem Site.ProxyReference.operand {s : Site} {n : Ident} {t : HostExpr}
    (h : s.ProxyReference n t) : Operand t := by
  cases h with
  | inConstructor hplace hname => exact .name (HostName.escape_isProper _)
  | inProcess hplace hname =>
      exact .field (.field .self (by decide)) (HostName.escape_isProper _)

/-- The proxy of a name is an operand. -/
theorem Site.operand_proxyOf {s : Site} {n : Ident} {p : HostExpr} (h : s.proxyOf n = .ok p) :
    Operand p :=
  (proxyOf_eq_ok_iff.mp h).2.operand

/-- A signal of the model, as a value. -/
theorem operand_proxy {n : HostName} (hn : n.IsProper) :
    Operand (.field .proxies n) :=
  .field (.field .self (by decide)) hn

/-- The model of a sub-unit, as a value. -/
theorem operand_unitModel {n : HostName} (hn : n.IsProper) :
    Operand (.field (.field .self n) (.plain "model")) :=
  .field (.field .self hn) (by decide)

/-- A call of a method is an operand if its arguments are. -/
theorem operand_method {e : HostExpr} {m : String} {args : List HostExpr} (he : Operand e)
    (hm : IsMethodName m) (hargs : ∀ a ∈ args, Operand a) : Operand (.method e m args) :=
  .method he hm fun a ha _ => hargs a ha

/-- What a name refers to is an operand. -/
theorem Site.NameReference.operand {s : Site} {n : Ident} {t : HostExpr}
    (h : s.NameReference n t) : Operand t := by
  cases h with
  | signal hkind hproxy => exact operand_method hproxy.operand (by decide) (by simp)
  | constantInConstructor hkind hplace hname =>
      exact operand_method (.name (HostName.escape_isProper _)) (by decide) (by simp)
  | constantInProcess hkind hplace hname =>
      exact operand_method (.field .self (HostName.escape_isProper _)) (by decide) (by simp)
  | type hkind hname => exact .selfCall (HostName.escape_isProper _)
  | member hkind hname htype =>
      refine operand_method (.selfCall (HostName.escape_isProper _)) (by decide) ?_
      simpa using Operand.str _
  | free hkind hname => exact .name (HostName.escape_isProper _)

/-- The value of a literal is an operand. -/
theorem LiteralMirrors.operand {v : Literal} {t : HostExpr} (h : LiteralMirrors v t) :
    Operand t := by
  cases h with
  | int v => exact .call (by decide) (by simp [isInt])
  | bits width hdigits => exact .call (by decide) (by simp [isInt, Operand.str])
  | bool b => exact .call (by decide) (by simp [Operand.bool])
  | str text => exact .call (by decide) (by simp [Operand.str])

/-- An operator in front of an operand gives an operand. -/
theorem UnaryOp.node_operand {t : HostExpr} (op : UnaryOp) (h : Operand t) :
    Operand (op.node t) := by
  unfold UnaryOp.node
  split
  · exact .prefixed _ h
  · rename_i m hform
    have hm : IsMethodName m := by cases op <;> cases hform <;> decide
    exact operand_method h hm (by simp)

/-- An operator between two operands gives an operand. -/
theorem BinaryOp.node_operand {l r : HostExpr} (op : BinaryOp) (hl : Operand l)
    (hr : Operand r) :
    Operand (op.node l r) := by
  unfold BinaryOp.node
  split
  · exact .infixed _ hl hr
  · rename_i m hform
    have hm : IsMethodName m := by cases op <;> cases hform <;> decide
    exact operand_method hl hm (by simpa using hr)

/-- A chain of calls on an operand is an operand. -/
private theorem operand_concat {t : HostExpr} {ts : List HostExpr} (h : Operand t)
    (hts : ∀ u ∈ ts, Operand u) :
    Operand (ts.foldl (fun front part => .method front "concat" [part]) t) := by
  induction ts generalizing t with
  | nil => exact h
  | cons u ts ih =>
      have hu : Operand u := hts u List.mem_cons_self
      refine ih (operand_method h (by decide) ?_) fun v hv => hts v (List.mem_cons_of_mem _ hv)
      simpa using hu

mutual

/-- **Values are operands.** -/
theorem Mirrors.operand {s : Site} : ∀ {e : Expr} {t : HostExpr}, Mirrors s e t → Operand t
  | _, _, .name hn => hn.operand
  | _, _, .literal hv => hv.operand
  | _, _, .unary op ha => op.node_operand ha.operand
  | _, _, .binary op ha hb => op.node_operand ha.operand hb.operand
  | _, _, .ternary hc ha hb =>
      .call (by decide) (by simp [hc.operand, ha.operand, hb.operand])
  | _, _, .index ha hi => operand_method ha.operand (by decide) (by simp [hi.operand])
  | _, _, .slice ha hh hl =>
      operand_method ha.operand (by decide) (by simp [hh.operand, hl.operand])
  | _, _, .concat ha has => operand_concat ha.operand has.operands
  | _, _, .cast ha htype => operand_method ha.operand (by decide) (by simp [htype.operand])
  | _, _, .call hf has =>
      .call (HostName.escape_isProper _) fun a ha _ => has.operands a ha
  | _, _, .edge edge hkind hn =>
      operand_method hn.operand (by cases edge <;> decide) (by simp)
  | _, _, .type htype => htype.operand

/-- What mirrors expressions are operands. -/
theorem MirrorsAll.operands {s : Site} :
    ∀ {es : List Expr} {ts : List HostExpr}, MirrorsAll s es ts → ∀ t ∈ ts, Operand t
  | _, _, .nil => by simp
  | _, _, .cons ha has => by
      intro t ht
      rcases List.mem_cons.mp ht with rfl | ht
      · exact ha.operand
      · exact has.operands t ht

/-- What mirrors a type is an operand. -/
theorem TypeMirrors.operand {s : Site} :
    ∀ {type : Ty} {t : HostExpr}, TypeMirrors s type t → Operand t
  | _, _, .bits width signed => .call (by decide) (by simp [isInt, Operand.bool])
  | _, _, .array helement hsize =>
      .call (by decide) (by simp [helement.operand, hsize.operand])
  | _, _, .own hkind hn => .selfCall (HostName.escape_isProper _)
  | _, _, .foreign hkind hn => .call (HostName.escape_isProper _) (by simp)

end

/-! ### The text of a value -/

/-- What ends the operand in front of it: the end of the text, a comma, a closing bracket. -/
def Ends : List Token → Prop
  | [] => True
  | t :: _ => t = .sign ',' ∨ t = .sign ')'

/-- **The text holds together.**  The text is an operand with the tree, and no context can regroup
it. -/
structure HoldsTogether (text : String) (t : HostExpr) : Prop where
  /-- The whole text is the tree. -/
  alone : parse text = some t
  /-- All operators in it are inside brackets. -/
  rank : ∃ ts, lex text.toList = some ts ∧ Derives postfixRank ts t
  /-- Whatever waits in front of it, it is read first, before what stands behind it. -/
  within : ∀ stack cs ts, Breaks cs → lex cs = some ts → NoCall ts →
    (lex (text.toList ++ cs)).bind (operand stack) = further stack t ts
  /-- As a receiver it is the whole receiver. -/
  receiver : ∀ m args, IsMethodName m → (∀ a ∈ args, Operand a) →
    parse (text ++ "." ++ m ++ "(" ++ Text.commaList (texts args) ++ ")") =
      some (.method t m args)
  /-- Behind a reference sign it is all that is referred to. -/
  referred : ∀ cs ts, Breaks cs → lex cs = some ts → Ends ts →
    ∃ us, lex ('&' :: text.toList ++ cs) = some (.sign '&' :: us) ∧ operand [] us = some (t, ts)
  /-- Between other arguments it is one argument. -/
  argument : ∀ f before after, HostName.IsProper f → (∀ a ∈ before ++ after, Operand a) →
    parse (f.text ++ "(" ++ Text.commaList (texts before ++ text :: texts after) ++ ")") =
      some (.call f (before ++ t :: after))

/-- Where an expression ends it is not called. -/
private theorem Ends.noCall {ts : List Token} (h : Ends ts) : NoCall ts := by
  cases ts with
  | nil => exact noCall_nil
  | cons t ts => rcases h with rfl | rfl <;> simp

/-- Where an operand ends, the reader stops. -/
theorem further_ends {ts : List Token} (h : Ends ts) (t : HostExpr) :
    further [] t ts = some (t, ts) := by
  cases ts with
  | nil => rfl
  | cons u ts => rcases h with rfl | rfl <;> rfl

/-- The text of an operand holds together. -/
theorem HostExpr.Operand.holdsTogether {t : HostExpr} (ht : Operand t) :
    HoldsTogether t.text t where
  alone := ht.parse_text
  rank := ⟨t.tokens, ht.lex_text, ht.derives⟩
  within := fun stack _ _ hcs hlex hcall => ht.operand_text stack hcs hlex hcall
  receiver := fun _ _ hm hargs => (operand_method ht hm hargs).parse_text
  referred := by
    intro cs ts hcs hlex hends
    refine ⟨t.tokens ++ ts, ?_, ?_⟩
    · rw [List.cons_append, lex_sign (by decide), ht.lexes cs hcs, hlex]
      rfl
    · rw [ht.derives.reads.of_postfixRank [] hends.noCall, further_ends hends]
  argument := by
    intro f before after hf hargs
    have hcall : Operand (.call f (before ++ t :: after)) := by
      refine .call hf fun a ha _ => ?_
      rcases List.mem_append.mp ha with ha | ha
      · exact hargs a (List.mem_append_left _ ha)
      rcases List.mem_cons.mp ha with rfl | ha
      · exact ht
      · exact hargs a (List.mem_append_right _ ha)
    have hparse := hcall.parse_text
    simpa [HostExpr.text, texts_eq_map] using hparse

/-- **Expression text never depends on precedence.**  For the grammar of host expressions there is a
reader, which finds the one tree of a text.  The text of every value is read as the tree that
mirrors the expression, and it holds together in every context.  The same is true of types. -/
theorem value_text_mirrors (s : Site) :
    (∀ text t, parse text = some t ↔ ∃ ts, lex text.toList = some ts ∧ Derives 0 ts t) ∧
    (∀ e h, s.value e = .ok h → ∃ t, Mirrors s e t ∧ HoldsTogether h.text t) ∧
    (∀ type h, s.typeValue type = .ok h → ∃ t, TypeMirrors s type t ∧ HoldsTogether h.text t) := by
  refine ⟨fun text t => parse_eq_some_iff, ?_, ?_⟩
  · intro e h hvalue
    have hmirrors := Site.value_mirrors hvalue
    exact ⟨h, hmirrors, hmirrors.operand.holdsTogether⟩
  · intro type h hvalue
    have hmirrors := Site.typeValue_mirrors hvalue
    exact ⟨h, hmirrors, hmirrors.operand.holdsTogether⟩

/-- A product of a sum and a negation, in a process. -/
theorem value_text_mirrors_product :
    let s : Site :=
      ⟨⟨⟨["a", "b"]⟩, "m"⟩, ⟨[(⟨0⟩, .proxy), (⟨1⟩, .constant)]⟩, .process, "process `p`"⟩
    let e : Expr :=
      .binary .mul (.binary .add (.name ⟨0⟩) (.literal (.int (-3)))) (.unary .neg (.name ⟨1⟩))
    ∃ h, s.value e = .ok h ∧
      h.text = "((self.io.a.read() + int(-3)) * (-self.b.clone()))" ∧
      ∃ t, Mirrors s e t ∧ HoldsTogether h.text t :=
  ⟨_, rfl, by decide, (value_text_mirrors _).2.1 _ _ rfl⟩

end HdlSim
