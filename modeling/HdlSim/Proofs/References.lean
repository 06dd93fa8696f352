import HdlSim.Proofs.Declarations

/-!
# References

What the code of a model refers to, read from its tokens (`refs`): signals, other fields, functions
that are called on the model, functions for types, and members of enumerations.  A model has what is
referred to if it declares it (`HostModel.Has`).

A part of the code is *sealed* if the references in it have a property whatever stands behind it
(`Sealed`).  The values of expressions are sealed where the names in scope have the property
(`Mirrors.isSealed`).
-/

namespace HdlSim

open Text Script HostExpr

/-! ### References in code -/

/-- A reference to a part of the model. -/
inductive HostRef where
  /-- A field of the bundle of proxies: `self.io.name`. -/
  | proxy (name : String)
  /-- A field of the model: `self.name`. -/
  | field (name : String)
  /-- A function that is called on the model: `self.name(`. -/
  | method (name : String)
  /-- The function for a type: `Self::name()`. -/
  | type (name : String)
  /-- A member of an enumeration, as a literal: `Self::type().member("label")`. -/
  | member (type : String) (label : List Char)
deriving DecidableEq

/-- The references that `self.name` and the tokens behind it make. -/
def selfRefs (name : String) : List Token → List HostRef
  | .sign '(' :: _ => [.method name]
  | .sign '.' :: .word inner :: _ =>
    if name = "io" then [.field name, .proxy inner] else [.field name]
  | _ => [.field name]

/-- The reference that the tokens behind `Self::type()` make. -/
def memberRefs (type : String) : List Token → List HostRef
  | .sign '.' :: .word "member" :: .sign '(' :: .quoted label :: _ => [.member type label]
  | _ => []

/-- The references that begin with the first token. -/
def refsAt : List Token → List HostRef
  | .word "self" :: .sign '.' :: .word w :: ts => selfRefs w ts
  | .word "Self" :: .sign ':' :: .sign ':' :: .word w :: .sign '(' :: .sign ')' :: ts =>
    .type w :: memberRefs w ts
  | _ => []

/-- **The references in some code.** -/
def refs : List Token → List HostRef
  | [] => []
  | t :: ts => refsAt (t :: ts) ++ refs ts

/-- The references in a text, outside of comments and string literals. -/
def HostRef.read (text : String) : Option (List HostRef) := (codeTokens text.toList).map refs

/-- The labels in the call that defines an enumeration. -/
def enumLabels : List Token → List (List Char)
  | .word "define_enum3t" :: .sign '(' :: .quoted _ :: .sign ',' :: .sign '&' :: .sign '[' :: ts =>
    (ts.takeWhile (· ≠ .sign ']')).filterMap fun
      | .quoted label => some label
      | _ => none
  | _ => []

/-- The model declares what is referred to. -/
def HostModel.Has (h : HostModel) : HostRef → Prop
  | .proxy w => ∃ f ∈ h.proxies, f.name.text = w
  | .field w => ∃ f ∈ h.fields, f.name.text = w
  | .method w => ∃ f ∈ h.processes, f.name.text = w ∧ f.params = receiverTokens
  | .type w => ∃ f ∈ h.types, f.name.text = w ∧ f.params = []
  | .member w label =>
    ∃ f ∈ h.types, f.name.text = w ∧ (∀ g ∈ h.functions, g.name.text = w → g = f) ∧
      label ∈ enumLabels f.body

example : HostRef.read "self.io.q.write(Self::state().member(\"IDLE\")); // self.x" =
    some [.field "io", .proxy "q", .type "state", .member "state" "IDLE".toList] := by
  decide +kernel

/-! ### Sealed code -/

/-- No reference begins with the token. -/
def Inert (t : Token) : Prop := t ≠ .word "self" ∧ t ≠ .word "Self"

instance (t : Token) : Decidable (Inert t) := by
  unfold Inert; infer_instance

/-- A sign refers to nothing. -/
@[simp] theorem inert_sign (c : Char) : Inert (.sign c) := by simp [Inert]

@[simp] theorem inert_quoted (body : List Char) : Inert (.quoted body) := by simp [Inert]

@[simp] theorem inert_str (text : String) : Inert (.str text) := by simp [Inert]

/-- The only words that refer to something are those for the model and its type. -/
@[simp] theorem inert_word {w : String} : Inert (.word w) ↔ w ≠ "self" ∧ w ≠ "Self" := by
  simp [Inert]

/-- No identifier is one of them. -/
theorem HostName.IsProper.ne_self {n : HostName} (h : n.IsProper) :
    n.text ≠ "self" ∧ n.text ≠ "Self" := by
  have hself : Token.name? (.word "self") = none ∧ Token.name? (.word "Self") = none := by decide
  have hname := h.name?
  refine ⟨fun heq => ?_, fun heq => ?_⟩
  · rw [heq, hself.1] at hname
    cases hname
  · rw [heq, hself.2] at hname
    cases hname

/-- An identifier by itself refers to nothing. -/
theorem HostName.IsProper.inert {n : HostName} (h : n.IsProper) : Inert (.word n.text) :=
  inert_word.mpr h.ne_self

/-- What stands here does not change a reference in front of it. -/
def Detached (us : List Token) : Prop :=
  ∀ rest, us ≠ .sign '(' :: rest ∧ us ≠ .sign '.' :: .word "member" :: rest

/-- Code that can stand behind other code. -/
def Follows (ts : List Token) : Prop := ∀ us, Detached us → Detached (ts ++ us)

/-- All references in the code have the property. -/
def AllRefs (P : HostRef → Prop) (ts : List Token) : Prop := ∀ r ∈ refs ts, P r

/-- The references in the code have the property, whatever stands behind it. -/
def Sealed (P : HostRef → Prop) (ts : List Token) : Prop :=
  ∀ us, Detached us → AllRefs P us → AllRefs P (ts ++ us)

/-- The end goes on with nothing. -/
theorem detached_nil : Detached [] := by simp [Detached]

/-- A token with which no reference goes on. -/
theorem follows_cons {t : Token} (ts : List Token) (hopen : t ≠ .sign '(' := by simp)
    (hdot : t ≠ .sign '.' := by simp) : Follows (t :: ts) := by
  intro us _ rest
  simp [hopen, hdot]

/-- No reference goes on with a method, unless it asks for a member. -/
theorem follows_method {method : String} (h : method ≠ "member") (ts : List Token) :
    Follows (.sign '.' :: .word method :: ts) := by
  intro us _ rest
  simp [h]

/-- Where nothing is referred to there are no references. -/
private theorem refsAt_inert {t : Token} (h : Inert t) (ts : List Token) :
    refsAt (t :: ts) = [] := by
  rw [refsAt]
  · rintro w rest heq
    exact absurd (List.cons.inj heq).1 h.1
  · rintro w rest heq
    exact absurd (List.cons.inj heq).1 h.2

section

variable {P : HostRef → Prop} {ts us : List Token} {t : Token}

/-- The references in some tokens begin at the first of them or at a later one. -/
theorem allRefs_cons_iff : AllRefs P (t :: ts) ↔ (∀ r ∈ refsAt (t :: ts), P r) ∧ AllRefs P ts :=
  List.forall_mem_append

/-- A token that refers to nothing can be left out. -/
theorem allRefs_inert (h : Inert t) : AllRefs P (t :: ts) ↔ AllRefs P ts := by
  simp [allRefs_cons_iff, refsAt_inert h]

/-- No tokens have no references. -/
theorem sealed_nil : Sealed P [] := fun _ _ h => h

/-- One more token in front that refers to nothing. -/
theorem Sealed.cons (ht : Inert t) (h : Sealed P ts) : Sealed P (t :: ts) :=
  fun us hus hrefs => (allRefs_inert ht).mpr (h us hus hrefs)

/-- Tokens that refer to nothing have no references. -/
theorem sealed_of_inert (h : ∀ t ∈ ts, Inert t) : Sealed P ts := by
  induction ts with
  | nil => exact sealed_nil
  | cons t ts ih =>
      obtain ⟨ht, hts⟩ := List.forall_mem_cons.mp h
      exact (ih hts).cons ht

/-- References do not go on from sealed tokens into what follows. -/
theorem Sealed.append (hts : Sealed P ts) (hus : Sealed P us) (hfollows : Follows us) :
    Sealed P (ts ++ us) := by
  intro rest hrest hrefs
  rw [List.append_assoc]
  exact hts _ (hfollows rest hrest) (hus rest hrest hrefs)

/-- Inert code in front. -/
theorem Sealed.behind (hts : Sealed P ts) (front : List Token) (hfront : ∀ t ∈ front, Inert t) :
    Sealed P (front ++ ts) := by
  induction front with
  | nil => exact hts
  | cons t front ih =>
      obtain ⟨ht, hrest⟩ := List.forall_mem_cons.mp hfront
      exact (ih hrest).cons ht

/-- Sealed tokens, with signs between them. -/
theorem sealed_join {c : Char} (hopen : c ≠ '(') (hdot : c ≠ '.') {more : List Token}
    (hmore : ∀ t ∈ more, Inert t) {tss : List (List Token)} (h : ∀ ts ∈ tss, Sealed P ts) :
    Sealed P (joinTokens (.sign c :: more) tss) := by
  induction tss with
  | nil => exact sealed_nil
  | cons ts tss ih =>
      obtain ⟨hts, htss⟩ := List.forall_mem_cons.mp h
      cases tss with
      | nil => exact hts
      | cons us tss =>
          have hrest : Sealed P (.sign c :: (more ++ joinTokens (.sign c :: more) (us :: tss))) :=
            ((ih htss).behind more hmore).cons (inert_sign c)
          have hform : joinTokens (.sign c :: more) (ts :: us :: tss) =
              ts ++ .sign c :: (more ++ joinTokens (.sign c :: more) (us :: tss)) := by
            simp [joinTokens]
          rw [hform]
          exact hts.append hrest (follows_cons _ (by simpa using hopen) (by simpa using hdot))

/-- Sealed tokens, with commas between them. -/
theorem sealed_commaTokens {tss : List (List Token)} (h : ∀ ts ∈ tss, Sealed P ts) :
    Sealed P (commaTokens tss) :=
  sealed_join (by decide) (by decide) (by simp) h

/-! ### References that are there -/

/-- A field of the model is a reference to it. -/
private theorem selfRefs_eq {w : String} (hio : w ≠ "io") (hus : ∀ rest, us ≠ .sign '(' :: rest) :
    selfRefs w us = [.field w] := by
  unfold selfRefs
  split
  · next rest => exact absurd rfl (hus rest)
  · rw [if_neg hio]
  · rfl

/-- No member is asked for where nothing goes on. -/
private theorem memberRefs_eq (w : String) (hus : Detached us) : memberRefs w us = [] := by
  unfold memberRefs
  split
  · next label rest => exact absurd rfl (hus _).2
  · rfl

/-- A field of the model. -/
theorem sealed_field {n : HostName} (hn : n.IsProper) (hio : n.text ≠ "io")
    (h : P (.field n.text)) : Sealed P (memberTokens n.text) := by
  intro us hus hrefs
  have hat : refsAt (memberTokens n.text ++ us) = [.field n.text] :=
    selfRefs_eq hio fun rest => (hus rest).1
  refine allRefs_cons_iff.mpr ⟨?_, ?_⟩
  · have hrefsAt : ∀ r ∈ refsAt (memberTokens n.text ++ us), P r := by simpa [hat] using h
    exact hrefsAt
  · exact (allRefs_inert (inert_sign _)).mpr ((allRefs_inert hn.inert).mpr hrefs)

/-- A field of the bundle of proxies. -/
theorem sealed_proxy {n : HostName} (hn : n.IsProper) (hio : P (.field "io"))
    (h : P (.proxy n.text)) :
    Sealed P (memberTokens "io" ++ [Token.sign '.', .word n.text]) := by
  intro us _ hrefs
  have hat : ∀ r ∈ refsAt (memberTokens "io" ++ [Token.sign '.', .word n.text] ++ us), P r := by
    simpa [memberTokens, refsAt, selfRefs] using ⟨hio, h⟩
  refine allRefs_cons_iff.mpr ⟨hat, ?_⟩
  have hword : Inert (.word "io") := by decide
  exact (allRefs_inert (inert_sign _)).mpr ((allRefs_inert hword).mpr
    ((allRefs_inert (inert_sign _)).mpr ((allRefs_inert hn.inert).mpr hrefs)))

/-- The function for a type. -/
theorem sealed_selfCall {n : HostName} (hn : n.IsProper) (h : P (.type n.text)) :
    Sealed P (HostExpr.selfCall n).tokens := by
  intro us hus hrefs
  have hat : ∀ r ∈ refsAt ((HostExpr.selfCall n).tokens ++ us), P r := by
    simpa [tokens, refsAt, memberRefs_eq _ hus] using h
  refine allRefs_cons_iff.mpr ⟨hat, ?_⟩
  have hrest : Sealed P [.sign ':', .sign ':', .word n.text, .sign '(', .sign ')'] :=
    sealed_of_inert (by simpa using hn.ne_self)
  exact hrest us hus hrefs

/-- A member of an enumeration. -/
theorem sealed_member {n : HostName} (hn : n.IsProper) {label : String} (htype : P (.type n.text))
    (hmember : P (.member n.text (label.toList.flatMap escapeChar))) :
    Sealed P (HostExpr.method (.selfCall n) "member" [.str label]).tokens := by
  intro us hus hrefs
  have hat : ∀ r ∈ refsAt
      ((HostExpr.method (.selfCall n) "member" [.str label]).tokens ++ us), P r := by
    simpa [tokens, tokenLists, commaTokens, joinTokens, refsAt, memberRefs] using ⟨htype, hmember⟩
  refine allRefs_cons_iff.mpr ⟨hat, ?_⟩
  have hrest : Sealed P [.sign ':', .sign ':', .word n.text, .sign '(', .sign ')', .sign '.',
      .word "member", .sign '(', .quoted (label.toList.flatMap escapeChar), .sign ')'] := by
    refine sealed_of_inert ?_
    simpa using hn.ne_self
  exact hrest us hus hrefs

/-! ### Values -/

/-- A number refers to nothing. -/
theorem inert_natText (n : Nat) : Inert (.word (natText n)) := by
  have hself : Atom.ofWord? "self" = some .self ∧ Atom.ofWord? "Self" = some .selfType := by decide
  have hnat := Atom.ofWord?_natText n
  refine ⟨fun heq => ?_, fun heq => ?_⟩
  · rw [Token.word.inj heq, hself.1] at hnat
    cases hnat
  · rw [Token.word.inj heq, hself.2] at hnat
    cases hnat

/-- A name has no references. -/
theorem sealed_name {n : HostName} (hn : n.IsProper) : Sealed P (HostExpr.name n).tokens :=
  sealed_of_inert (by simpa [tokens] using hn.ne_self)

/-- An integer has no references. -/
theorem sealed_int (v : Int) : Sealed P (HostExpr.int v).tokens := by
  cases v with
  | ofNat n => exact sealed_of_inert (by simpa [tokens, intTokens] using inert_natText n)
  | negSucc n => exact sealed_of_inert (by simpa [tokens, intTokens] using inert_natText (n + 1))

/-- A truth value has no references. -/
theorem sealed_bool (b : Bool) : Sealed P (HostExpr.bool b).tokens := by
  cases b <;> exact sealed_of_inert (by decide)

/-- A string has no references. -/
theorem sealed_str (text : String) : Sealed P (HostExpr.str text).tokens :=
  sealed_of_inert (by simp [tokens])

/-- Expressions that are sealed one by one. -/
theorem sealed_tokenLists {es : List HostExpr} (h : ∀ e ∈ es, Sealed P e.tokens) :
    ∀ ts ∈ tokenLists es, Sealed P ts := by
  rw [tokenLists_eq_map]
  exact List.forall_mem_map.mpr h

/-- Sealed code between inert code. -/
theorem Sealed.between (hts : Sealed P ts) (front back : List Token)
    (hfront : ∀ t ∈ front, Inert t) (hback : ∀ t ∈ back, Inert t) (hfollows : Follows back) :
    Sealed P (front ++ ts ++ back) := by
  rw [List.append_assoc]
  exact (hts.append (sealed_of_inert hback) hfollows).behind front hfront

/-- No reference goes on behind a closing bracket. -/
theorem follows_close (ts : List Token) : Follows (.sign ')' :: ts) :=
  follows_cons ts

/-- The references in a call are those in its arguments. -/
theorem sealed_call {f : HostName} (hf : f.IsProper) {args : List HostExpr}
    (hargs : ∀ a ∈ args, Sealed P a.tokens) : Sealed P (HostExpr.call f args).tokens := by
  have hlist := sealed_commaTokens (sealed_tokenLists hargs)
  exact hlist.between [.word f.text, .sign '('] [.sign ')'] (by simpa using hf.ne_self) (by simp)
    (follows_close [])

/-- The references in a call of a method are those in its receiver and its arguments. -/
theorem sealed_method {e : HostExpr} (he : Sealed P e.tokens) {method : String}
    (hmethod : IsMethodName method) (hne : method ≠ "member") {args : List HostExpr}
    (hargs : ∀ a ∈ args, Sealed P a.tokens) : Sealed P (HostExpr.method e method args).tokens := by
  have hinert : Inert (.word method) := HostName.IsProper.inert hmethod
  have hlist := sealed_commaTokens (sealed_tokenLists hargs)
  have hcall := hlist.between [.sign '.', .word method, .sign '('] [.sign ')']
    (by simpa using hinert) (by simp) (follows_close [])
  simpa [tokens] using he.append hcall (follows_method hne _)

private theorem sealed_prefixed (op : HostPrefix) {e : HostExpr} (he : Sealed P e.tokens) :
    Sealed P (HostExpr.prefixed op e).tokens :=
  he.between [.sign '(', .sign op.char] [.sign ')'] (by simp) (by simp) (follows_close [])

private theorem sealed_infixed (op : HostInfix) {l r : HostExpr} (hl : Sealed P l.tokens)
    (hr : Sealed P r.tokens) : Sealed P (HostExpr.infixed op l r).tokens := by
  have hsigns : ∀ t ∈ op.chars.map Token.sign, Inert t := by simp
  have hfollows : Follows (op.chars.map Token.sign ++ r.tokens) := by
    cases op <;> exact follows_cons _
  have hboth := (hl.append (hr.behind _ hsigns) hfollows).between [.sign '('] [.sign ')'] (by simp)
    (by simp) (follows_close [])
  simpa [tokens] using hboth

/-- A unary operator of the design brings no reference. -/
private theorem sealed_unary (op : UnaryOp) {a : HostExpr} (ha : Sealed P a.tokens) :
    Sealed P (op.node a).tokens := by
  unfold UnaryOp.node
  split
  · exact sealed_prefixed _ ha
  · next method hform =>
      have hmethod : IsMethodName method ∧ method ≠ "member" := by
        cases op <;> cases hform <;> decide
      exact sealed_method ha hmethod.1 hmethod.2 (by simp)

/-- A binary operator of the design brings no reference. -/
private theorem sealed_binary (op : BinaryOp) {l r : HostExpr} (hl : Sealed P l.tokens)
    (hr : Sealed P r.tokens) : Sealed P (op.node l r).tokens := by
  unfold BinaryOp.node
  split
  · exact sealed_infixed _ hl hr
  · next method hform =>
      have hmethod : IsMethodName method ∧ method ≠ "member" := by
        cases op <;> cases hform <;> decide
      exact sealed_method hl hmethod.1 hmethod.2 (by simpa using hr)

private theorem sealed_concat {t : HostExpr} (ht : Sealed P t.tokens) {ts : List HostExpr}
    (hts : ∀ u ∈ ts, Sealed P u.tokens) :
    Sealed P (ts.foldl (fun front part => HostExpr.method front "concat" [part]) t).tokens := by
  induction ts generalizing t with
  | nil => exact ht
  | cons u ts ih =>
      obtain ⟨hu, hrest⟩ := List.forall_mem_cons.mp hts
      exact ih (sealed_method ht (by decide) (by decide) (by simpa using hu)) hrest

end

/-! ### Values at a site -/

/-- The text of a plain name is its word. -/
@[simp] theorem HostName.text_plain (w : String) : (HostName.plain w).text = w := rfl

/-- No name is taken for the bundle of proxies. -/
theorem HostName.escape_text_ne_io (name : String) : (escape name).text ≠ "io" := by
  intro heq
  unfold HostName.text at heq
  split at heq
  · have hchars := congrArg String.toList heq
    simp at hchars
  · have hword := HostName.escape_word_not_mem name
    rw [heq] at hword
    exact absurd (by decide) hword

/-- References to the names in scope have the property. -/
structure Site.Covered (P : HostRef → Prop) (s : Site) : Prop where
  io : P (.field "io")
  proxy : ∀ {n text}, s.scope.get? n = some .proxy → s.context.names.resolve? n = some text →
    P (.proxy (HostName.escape text).text)
  constant : ∀ {n text}, s.scope.get? n = some .constant →
    s.context.names.resolve? n = some text → P (.field (HostName.escape text).text)
  type : ∀ {n text}, s.scope.get? n = some .type → s.context.names.resolve? n = some text →
    P (.type (HostName.escape text).text)
  member : ∀ {n type text typeText}, s.scope.get? n = some (.enumMember type) →
    s.context.names.resolve? n = some text → s.context.names.resolve? type = some typeText →
    P (.type (HostName.escape typeText).text) ∧
      P (.member (HostName.escape typeText).text (text.toList.flatMap escapeChar))

section

variable {P : HostRef → Prop} {s : Site}

/-- The reference in a proxy is covered. -/
theorem Site.ProxyReference.isSealed (hs : s.Covered P) {n : Ident} {t : HostExpr}
    (hkind : s.scope.get? n = some .proxy) (h : s.ProxyReference n t) : Sealed P t.tokens := by
  cases h with
  | inConstructor hplace hname => exact sealed_name (HostName.escape_isProper _)
  | inProcess hplace hname =>
      exact sealed_proxy (HostName.escape_isProper _) hs.io (hs.proxy hkind hname)

/-- The references in what a name refers to are covered. -/
theorem Site.NameReference.isSealed (hs : s.Covered P) {n : Ident} {t : HostExpr}
    (h : s.NameReference n t) : Sealed P t.tokens := by
  cases h with
  | signal hkind hproxy =>
      exact sealed_method (hproxy.isSealed hs hkind) (by decide) (by decide) (by simp)
  | constantInConstructor hkind hplace hname =>
      exact sealed_method (sealed_name (HostName.escape_isProper _)) (by decide) (by decide)
        (by simp)
  | @constantInProcess text hkind hplace hname =>
      have hfield : Sealed P (HostExpr.field .self (.escape text)).tokens :=
        sealed_field (HostName.escape_isProper text) (HostName.escape_text_ne_io text)
          (hs.constant hkind hname)
      exact sealed_method hfield (by decide) (by decide) (by simp)
  | type hkind hname => exact sealed_selfCall (HostName.escape_isProper _) (hs.type hkind hname)
  | member hkind hname htype =>
      obtain ⟨htypeRef, hmember⟩ := hs.member hkind hname htype
      exact sealed_member (HostName.escape_isProper _) htypeRef hmember
  | free hkind hname => exact sealed_name (HostName.escape_isProper _)

/-- A literal has no references. -/
theorem LiteralMirrors.isSealed {v : Literal} {t : HostExpr} (h : LiteralMirrors v t) :
    Sealed P t.tokens := by
  cases h with
  | int v => exact sealed_call (by decide) (by simpa using sealed_int _)
  | bits width hdigits =>
      exact sealed_call (by decide) (by simpa using ⟨sealed_int _, sealed_str _⟩)
  | bool b => exact sealed_call (by decide) (by simpa using sealed_bool b)
  | str text => exact sealed_call (by decide) (by simpa using sealed_str text)

mutual

/-- **Values refer to what is declared.** -/
theorem Mirrors.isSealed (hs : s.Covered P) :
    ∀ {e : Expr} {t : HostExpr}, Mirrors s e t → Sealed P t.tokens
  | _, _, .name hn => hn.isSealed hs
  | _, _, .literal hv => hv.isSealed
  | _, _, .unary op ha => sealed_unary op (ha.isSealed hs)
  | _, _, .binary op ha hb => sealed_binary op (ha.isSealed hs) (hb.isSealed hs)
  | _, _, .ternary hc ha hb =>
      sealed_call (by decide) (by simp [hc.isSealed hs, ha.isSealed hs, hb.isSealed hs])
  | _, _, .index ha hi =>
      sealed_method (ha.isSealed hs) (by decide) (by decide) (by simp [hi.isSealed hs])
  | _, _, .slice ha hh hl =>
      sealed_method (ha.isSealed hs) (by decide) (by decide)
        (by simp [hh.isSealed hs, hl.isSealed hs])
  | _, _, .concat ha has => sealed_concat (ha.isSealed hs) (has.areSealed hs)
  | _, _, .cast ha htype =>
      sealed_method (ha.isSealed hs) (by decide) (by decide) (by simp [htype.isSealed hs])
  | _, _, .call hf has => sealed_call (HostName.escape_isProper _) (has.areSealed hs)
  | _, _, .edge edge hkind hn =>
      sealed_method (hn.isSealed hs hkind) (by cases edge <;> decide) (by cases edge <;> decide)
        (by simp)
  | _, _, .type htype => htype.isSealed hs

/-- The references in values are covered. -/
theorem MirrorsAll.areSealed (hs : s.Covered P) :
    ∀ {es : List Expr} {ts : List HostExpr}, MirrorsAll s es ts → ∀ t ∈ ts, Sealed P t.tokens
  | _, _, .nil => by simp
  | _, _, .cons ha has => List.forall_mem_cons.mpr ⟨ha.isSealed hs, has.areSealed hs⟩

/-- The references in the value of a type are covered. -/
theorem TypeMirrors.isSealed (hs : s.Covered P) :
    ∀ {type : Ty} {t : HostExpr}, TypeMirrors s type t → Sealed P t.tokens
  | _, _, .bits width signed =>
      sealed_call (by decide) (by simpa using ⟨sealed_int _, sealed_bool signed⟩)
  | _, _, .array helement hsize =>
      sealed_call (by decide) (by simp [helement.isSealed hs, hsize.isSealed hs])
  | _, _, .own hkind hn => sealed_selfCall (HostName.escape_isProper _) (hs.type hkind hn)
  | _, _, .foreign hkind hn => sealed_call (HostName.escape_isProper _) (by simp)

end

end

end HdlSim
