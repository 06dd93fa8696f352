import HdlSim.Proofs.Code

/-!
# The items of host code

Host code is read as a sequence of items: structures with their fields, and blocks of functions that
belong to a type.  Matching braces divide the code into blocks (`blocks`), and the tokens in front
of a block tell what it is (`HostItem.ofBlock`).

Items are written in one way only, and they are read back if their names are identifiers and the
braces match inside of every function (`HostItem.readTokens_tokens`).
-/

namespace HdlSim

/-- The identifier that a token is. -/
def Token.name? : Token → Option HostName
  | .word w => HostName.ofText? w
  | _ => none

/-- The token of a name is that name. -/
theorem HostName.IsProper.name? {n : HostName} (h : n.IsProper) :
    Token.name? (.word n.text) = some n :=
  Atom.ofWord?_eq_name_iff.mp h

/-! ### Blocks -/

/-- The number of open braces after some tokens, unless one of them closes a brace where none is
open. -/
def braceDepth : Nat → List Token → Option Nat
  | depth, [] => some depth
  | depth, .sign '\x7b' :: ts => braceDepth (depth + 1) ts
  | 0, .sign '\x7d' :: _ => none
  | depth + 1, .sign '\x7d' :: ts => braceDepth depth ts
  | depth, _ :: ts => braceDepth depth ts

/-- The braces match. -/
def Balanced (ts : List Token) : Prop := braceDepth 0 ts = some 0

/-- There are no braces. -/
def Flat (ts : List Token) : Prop := ∀ t ∈ ts, t ≠ .sign '\x7b' ∧ t ≠ .sign '\x7d'

instance (ts : List Token) : Decidable (Balanced ts) := by
  unfold Balanced; infer_instance

instance (ts : List Token) : Decidable (Flat ts) := by
  unfold Flat; infer_instance

/-- Two lists of tokens without braces. -/
theorem flat_append {ts us : List Token} : Flat (ts ++ us) ↔ Flat ts ∧ Flat us :=
  List.forall_mem_append

/-- Tokens without braces and semicolons have no braces. -/
theorem Plain.flat {ts : List Token} (h : Plain ts) : Flat ts := fun t ht => (h t ht).2

/-- A token that is no brace does not count. -/
theorem braceDepth_cons {t : Token} (hopen : t ≠ .sign '\x7b') (hclose : t ≠ .sign '\x7d')
    (depth : Nat) (ts : List Token) : braceDepth depth (t :: ts) = braceDepth depth ts := by
  rw [braceDepth]
  · rintro rfl
    exact hopen rfl
  · rintro - rfl
    exact hclose rfl
  · rintro _ - rfl
    exact hclose rfl

/-- The braces that are open after two lists of tokens. -/
theorem braceDepth_append (depth : Nat) (ts us : List Token) :
    braceDepth depth (ts ++ us) = (braceDepth depth ts).bind fun inner => braceDepth inner us := by
  induction ts generalizing depth with
  | nil => rfl
  | cons t ts ih =>
      by_cases hopen : t = .sign '\x7b'
      · subst hopen
        exact ih (depth + 1)
      by_cases hclose : t = .sign '\x7d'
      · subst hclose
        cases depth with
        | zero => rfl
        | succ depth => exact ih depth
      rw [List.cons_append, braceDepth_cons hopen hclose, braceDepth_cons hopen hclose, ih]

/-- Tokens without braces leave the braces as they are. -/
theorem Flat.depth {ts : List Token} (h : Flat ts) (depth : Nat) :
    braceDepth depth ts = some depth := by
  induction ts with
  | nil => rfl
  | cons t ts ih =>
      obtain ⟨⟨hopen, hclose⟩, hrest⟩ := List.forall_mem_cons.mp h
      rw [braceDepth_cons hopen hclose, ih hrest]

/-- Where there are no braces they match. -/
theorem Flat.balanced {ts : List Token} (h : Flat ts) : Balanced ts := h.depth 0

/-- Braces match as well inside of others. -/
theorem braceDepth_succ {depth inner : Nat} {ts : List Token}
    (h : braceDepth depth ts = some inner) : braceDepth (depth + 1) ts = some (inner + 1) := by
  induction ts generalizing depth with
  | nil =>
      obtain rfl := Option.some.inj h
      rfl
  | cons t ts ih =>
      by_cases hopen : t = .sign '\x7b'
      · subst hopen
        have hrest : braceDepth (depth + 1) ts = some inner := h
        exact ih hrest
      by_cases hclose : t = .sign '\x7d'
      · subst hclose
        cases depth with
        | zero => cases h
        | succ depth =>
            have hrest : braceDepth depth ts = some inner := h
            exact ih hrest
      rw [braceDepth_cons hopen hclose] at h ⊢
      exact ih h

/-- Braces that match in each of two lists match in both together. -/
theorem Balanced.append {ts us : List Token} (hts : Balanced ts) (hus : Balanced us) :
    Balanced (ts ++ us) := by
  unfold Balanced
  rw [braceDepth_append, hts]
  exact hus

/-- Braces that match in each of some lists match in all of them together. -/
theorem balanced_flatMap {α : Type} {xs : List α} {f : α → List Token}
    (h : ∀ x ∈ xs, Balanced (f x)) : Balanced (xs.flatMap f) := by
  induction xs with
  | nil => rfl
  | cons x xs ih =>
      obtain ⟨hx, hxs⟩ := List.forall_mem_cons.mp h
      rw [List.flatMap_cons]
      exact hx.append (ih hxs)

/-- A pair of outermost braces: the tokens in front of it, and those between. -/
structure Block where
  head : List Token
  body : List Token
deriving DecidableEq

/-- The tokens of a block. -/
def Block.tokens (b : Block) : List Token :=
  b.head ++ .sign '\x7b' :: (b.body ++ [.sign '\x7d'])

/-- The blocks of some code, given the tokens in front of the block at hand and, once it has begun,
the number of pairs of braces that are open in it and the tokens since it began. -/
def blocksFrom : List Token → Option (Nat × List Token) → List Token → Option (List Block)
  | head, none, [] => if head = [] then some [] else none
  | _, some _, [] => none
  | head, none, .sign '\x7b' :: ts => blocksFrom head (some (0, [])) ts
  | _, none, .sign '\x7d' :: _ => none
  | head, none, t :: ts => blocksFrom (head ++ [t]) none ts
  | head, some (depth, body), .sign '\x7b' :: ts =>
    blocksFrom head (some (depth + 1, body ++ [.sign '\x7b'])) ts
  | head, some (0, body), .sign '\x7d' :: ts => (blocksFrom [] none ts).map (⟨head, body⟩ :: ·)
  | head, some (depth + 1, body), .sign '\x7d' :: ts =>
    blocksFrom head (some (depth, body ++ [.sign '\x7d'])) ts
  | head, some (depth, body), t :: ts => blocksFrom head (some (depth, body ++ [t])) ts

/-- **The blocks of some code**, which must consist of nothing else. -/
def blocks (ts : List Token) : Option (List Block) := blocksFrom [] none ts

/-- Tokens without braces are gathered in front of a block. -/
private theorem blocksFrom_head {ts : List Token} (h : Flat ts) (head us : List Token) :
    blocksFrom head none (ts ++ us) = blocksFrom (head ++ ts) none us := by
  induction ts generalizing head with
  | nil => rw [List.nil_append, List.append_nil]
  | cons t ts ih =>
      obtain ⟨⟨hopen, hclose⟩, hrest⟩ := List.forall_mem_cons.mp h
      have hstep : blocksFrom head none (t :: (ts ++ us)) =
          blocksFrom (head ++ [t]) none (ts ++ us) := by
        rw [blocksFrom]
        · rintro rfl
          exact hopen rfl
        · rintro rfl
          exact hclose rfl
      rw [List.cons_append, hstep, ih hrest, List.append_assoc, List.singleton_append]

/-- Inside of a block only the number of open braces matters. -/
theorem blocksFrom_body {depth inner : Nat} {ts : List Token}
    (h : braceDepth depth ts = some inner) (head body us : List Token) :
    blocksFrom head (some (depth, body)) (ts ++ us) =
      blocksFrom head (some (inner, body ++ ts)) us := by
  induction ts generalizing depth body with
  | nil =>
      obtain rfl := Option.some.inj h
      rw [List.nil_append, List.append_nil]
  | cons t ts ih =>
      have hform : body ++ t :: ts = (body ++ [t]) ++ ts := by simp
      rw [List.cons_append, hform]
      by_cases hopen : t = .sign '\x7b'
      · subst hopen
        have hrest : braceDepth (depth + 1) ts = some inner := h
        rw [blocksFrom, ih hrest]
      by_cases hclose : t = .sign '\x7d'
      · subst hclose
        cases depth with
        | zero => cases h
        | succ depth =>
            have hrest : braceDepth depth ts = some inner := h
            rw [blocksFrom, ih hrest]
      rw [braceDepth_cons hopen hclose] at h
      have hstep : blocksFrom head (some (depth, body)) (t :: (ts ++ us)) =
          blocksFrom head (some (depth, body ++ [t])) (ts ++ us) := by
        rw [blocksFrom]
        · rintro rfl
          exact hopen rfl
        · rintro - rfl
          exact hclose rfl
        · rintro _ - rfl
          exact hclose rfl
      rw [hstep, ih h]

/-- A block that is found again. -/
structure Block.IsMatched (b : Block) : Prop where
  head : Flat b.head
  body : Balanced b.body

/-- The braces of a block match if they do in its body. -/
theorem Block.IsMatched.balanced {b : Block} (h : b.IsMatched) : Balanced b.tokens := by
  have hbody : braceDepth 1 (b.body ++ [Token.sign '\x7d']) = some 0 := by
    rw [braceDepth_append, braceDepth_succ h.body]
    rfl
  unfold Balanced Block.tokens
  rw [braceDepth_append, h.head.depth]
  exact hbody

/-- **Blocks are found again.** -/
theorem blocks_tokens {bs : List Block} (h : ∀ b ∈ bs, b.IsMatched) :
    blocks (bs.flatMap Block.tokens) = some bs := by
  induction bs with
  | nil => rfl
  | cons b bs ih =>
      obtain ⟨hb, hbs⟩ := List.forall_mem_cons.mp h
      have hnext : blocksFrom [] none (bs.flatMap Block.tokens) = some bs := ih hbs
      have hform : (b :: bs).flatMap Block.tokens =
          b.head ++ .sign '\x7b' :: (b.body ++ .sign '\x7d' :: bs.flatMap Block.tokens) := by
        simp [Block.tokens]
      rw [hform, blocks, blocksFrom_head hb.head, blocksFrom, blocksFrom_body hb.body, blocksFrom,
        hnext]
      rfl

/-! ### Items -/

/-- A field of a structure. -/
structure HostField where
  name : HostName
  type : HostName
deriving DecidableEq

/-- A function: its name, the tokens of its parameters, of its result and of its body. -/
structure HostFunction where
  name : HostName
  params : List Token
  result : List Token
  body : List Token
deriving DecidableEq

/-- An item of host code. -/
inductive HostItem where
  | struct (name : HostName) (fields : List HostField)
  /-- The functions of a type, or those that make up a trait of it. -/
  | impl (trait : Option HostName) (unit : HostName) (functions : List HostFunction)
deriving DecidableEq

namespace HostField

/-- The tokens of a field. -/
def tokens (f : HostField) : List Token :=
  [.word "pub", .word f.name.text, .sign ':', .word f.type.text, .sign ',']

/-- The fields between the braces of a structure. -/
def readAll : List Token → Option (List HostField)
  | [] => some []
  | .word "pub" :: n :: .sign ':' :: t :: .sign ',' :: ts => do
    let name ← n.name?
    let type ← t.name?
    let rest ← readAll ts
    return ⟨name, type⟩ :: rest
  | _ => none

/-- The name and the type are identifiers. -/
def Legible (f : HostField) : Prop := f.name.IsProper ∧ f.type.IsProper

private theorem readAll_tokens {fs : List HostField} (h : ∀ f ∈ fs, f.Legible) :
    readAll (fs.flatMap tokens) = some fs := by
  induction fs with
  | nil => rfl
  | cons f fs ih =>
      obtain ⟨⟨hname, htype⟩, hfs⟩ := List.forall_mem_cons.mp h
      have hform : (f :: fs).flatMap tokens = .word "pub" :: .word f.name.text :: .sign ':' ::
          .word f.type.text :: .sign ',' :: fs.flatMap tokens := rfl
      rw [hform, readAll, hname.name?, htype.name?, ih hfs]
      rfl

private theorem flat_tokens (f : HostField) : Flat f.tokens := by
  simp [Flat, tokens]

end HostField

namespace HostFunction

/-- The tokens in front of the braces of a function. -/
def signature (f : HostFunction) : List Token :=
  .word "fn" :: .word f.name.text :: .sign '(' :: (f.params ++ .sign ')' ::
    if f.result = [] then [] else .sign '-' :: .sign '>' :: f.result)

/-- The block of a function of a type. -/
def method (f : HostFunction) : Block := ⟨.word "pub" :: f.signature, f.body⟩

/-- The block of a function of a trait. -/
def callback (f : HostFunction) : Block := ⟨f.signature, f.body⟩

/-- The function with this signature and body. -/
def ofSignature (signature body : List Token) : Option HostFunction :=
  match signature with
  | .word "fn" :: n :: .sign '(' :: ts => do
    let name ← n.name?
    let params := ts.takeWhile (· ≠ .sign ')')
    match ts.dropWhile (· ≠ .sign ')') with
    | .sign ')' :: .sign '-' :: .sign '>' :: result => return ⟨name, params, result, body⟩
    | [.sign ')'] => return ⟨name, params, [], body⟩
    | _ => none
  | _ => none

/-- The function of a type that a block is. -/
def ofMethod? (b : Block) : Option HostFunction :=
  match b.head with
  | .word "pub" :: signature => ofSignature signature b.body
  | _ => none

/-- The function of a trait that a block is. -/
def ofCallback? (b : Block) : Option HostFunction := ofSignature b.head b.body

/-- A function that is read back. -/
structure Legible (f : HostFunction) : Prop where
  name : f.name.IsProper
  params : ∀ t ∈ f.params, t ≠ .sign ')'
  flat : Flat (f.params ++ f.result)
  body : Balanced f.body

/-- A function is read back from its signature and its body. -/
theorem ofSignature_signature {f : HostFunction} (h : f.Legible) :
    ofSignature f.signature f.body = some f := by
  obtain ⟨name, params, result, body⟩ := f
  have hparams : ∀ t ∈ params, decide (t ≠ .sign ')') = true :=
    fun t ht => decide_eq_true (h.params t ht)
  have hname : Token.name? (.word name.text) = some name := h.name.name?
  simp only [signature, ofSignature, hname, List.takeWhile_append_of_pos hparams,
    List.dropWhile_append_of_pos hparams]
  cases result with
  | nil => simp
  | cons t ts => simp

/-- A signature has no braces. -/
theorem flat_signature {f : HostFunction} (h : f.Legible) : Flat f.signature := by
  obtain ⟨hparams, hresult⟩ := flat_append.mp h.flat
  have hback : Flat (if f.result = [] then [] else .sign '-' :: .sign '>' :: f.result) := by
    split
    · simp [Flat]
    · have harrow : Flat [.sign '-', .sign '>'] := by decide
      exact flat_append.mpr ⟨harrow, hresult⟩
  have hfront : Flat [.word "fn", .word f.name.text, .sign '('] := by simp [Flat]
  have hend : Flat [.sign ')'] := by decide
  exact flat_append.mpr ⟨hfront, flat_append.mpr ⟨hparams, flat_append.mpr ⟨hend, hback⟩⟩⟩

/-- The braces of a function match. -/
theorem isMatched_method {f : HostFunction} (h : f.Legible) : f.method.IsMatched := by
  have hpub : Flat [.word "pub"] := by decide
  exact ⟨flat_append.mpr ⟨hpub, flat_signature h⟩, h.body⟩

/-- The braces of a function that the simulator calls match. -/
theorem isMatched_callback {f : HostFunction} (h : f.Legible) : f.callback.IsMatched :=
  ⟨flat_signature h, h.body⟩

/-- The parameters among some tokens, given whether one may begin here: names in front of a
colon. -/
def paramsFrom : Bool → List Token → List HostName
  | _, [] => []
  | true, n :: .sign ':' :: ts => n.name?.toList ++ paramsFrom false ts
  | _, .sign ',' :: ts => paramsFrom true ts
  | _, _ :: ts => paramsFrom false ts

/-- The names of the parameters. -/
def paramNames (f : HostFunction) : List HostName := paramsFrom true f.params

end HostFunction

/-- The variables that some code declares. -/
def letNames : List Token → List HostName
  | [] => []
  | .word "let" :: n :: ts => n.name?.toList ++ letNames ts
  | _ :: ts => letNames ts

/-- The names of the variables of a function. -/
def HostFunction.localNames (f : HostFunction) : List HostName := letNames f.body

namespace HostItem

/-- The block of an item. -/
def block : HostItem → Block
  | .struct name fields =>
    ⟨[.word "pub", .word "struct", .word name.text], fields.flatMap HostField.tokens⟩
  | .impl none unit functions =>
    ⟨[.word "impl", .word unit.text], (functions.map HostFunction.method).flatMap Block.tokens⟩
  | .impl (some trait) unit functions =>
    ⟨[.word "impl", .word trait.text, .word "for", .word unit.text],
      (functions.map HostFunction.callback).flatMap Block.tokens⟩

/-- The tokens of an item. -/
def tokens (i : HostItem) : List Token := i.block.tokens

/-- The item that a block is. -/
def ofBlock (b : Block) : Option HostItem :=
  match b.head with
  | [.word "pub", .word "struct", n] => do
    let name ← n.name?
    let fields ← HostField.readAll b.body
    return .struct name fields
  | [.word "impl", n] => do
    let unit ← n.name?
    let bs ← blocks b.body
    let functions ← bs.mapM HostFunction.ofMethod?
    return .impl none unit functions
  | [.word "impl", t, .word "for", n] => do
    let trait ← t.name?
    let unit ← n.name?
    let bs ← blocks b.body
    let functions ← bs.mapM HostFunction.ofCallback?
    return .impl (some trait) unit functions
  | _ => none

/-- The items that tokens form. -/
def readTokens (ts : List Token) : Option (List HostItem) :=
  (blocks ts).bind fun bs => bs.mapM ofBlock

/-- **The items of a text.** -/
def read (text : String) : Option (List HostItem) := (codeTokens text.toList).bind readTokens

/-- An item that is read back. -/
def Legible : HostItem → Prop
  | .struct name fields => name.IsProper ∧ ∀ f ∈ fields, f.Legible
  | .impl trait unit functions =>
    (∀ t ∈ trait, t.IsProper) ∧ unit.IsProper ∧ ∀ f ∈ functions, f.Legible

private theorem isMatched_block {i : HostItem} (h : i.Legible) : i.block.IsMatched := by
  cases i with
  | struct name fields =>
      exact ⟨by simp [block, Flat], balanced_flatMap fun f _ => f.flat_tokens.balanced⟩
  | impl trait unit functions =>
      obtain ⟨-, -, hfunctions⟩ := h
      cases trait with
      | none =>
          refine ⟨by simp [block, Flat], balanced_flatMap ?_⟩
          exact List.forall_mem_map.mpr fun f hf =>
            (HostFunction.isMatched_method (hfunctions f hf)).balanced
      | some trait =>
          refine ⟨by simp [block, Flat], balanced_flatMap ?_⟩
          exact List.forall_mem_map.mpr fun f hf =>
            (HostFunction.isMatched_callback (hfunctions f hf)).balanced

/-- What is read back member by member is read back as a list. -/
theorem mapM_map_eq_some {α β : Type} {f : α → Option β} {g : β → α} {xs : List β}
    (h : ∀ x ∈ xs, f (g x) = some x) : (xs.map g).mapM f = some xs := by
  have hall : xs.mapM (f ∘ g) = some (xs.map id) := Option.mapM_eq_some_map h
  rw [List.mapM_map, hall, List.map_id]

/-- An item is read back from its block. -/
private theorem ofBlock_block {i : HostItem} (h : i.Legible) : ofBlock i.block = some i := by
  cases i with
  | struct name fields =>
      obtain ⟨hname, hfields⟩ := h
      simp [block, ofBlock, hname.name?, HostField.readAll_tokens hfields]
  | impl trait unit functions =>
      obtain ⟨htrait, hunit, hfunctions⟩ := h
      cases trait with
      | none =>
          have hblocks : blocks ((functions.map HostFunction.method).flatMap Block.tokens) =
              some (functions.map HostFunction.method) :=
            blocks_tokens (List.forall_mem_map.mpr fun f hf =>
              HostFunction.isMatched_method (hfunctions f hf))
          have hread : (functions.map HostFunction.method).mapM HostFunction.ofMethod? =
              some functions :=
            mapM_map_eq_some fun f hf => HostFunction.ofSignature_signature (hfunctions f hf)
          simp [block, ofBlock, hunit.name?, hblocks, hread]
      | some trait =>
          have hblocks : blocks ((functions.map HostFunction.callback).flatMap Block.tokens) =
              some (functions.map HostFunction.callback) :=
            blocks_tokens (List.forall_mem_map.mpr fun f hf =>
              HostFunction.isMatched_callback (hfunctions f hf))
          have hread : (functions.map HostFunction.callback).mapM HostFunction.ofCallback? =
              some functions :=
            mapM_map_eq_some fun f hf => HostFunction.ofSignature_signature (hfunctions f hf)
          have htraitName : trait.IsProper := htrait trait rfl
          simp [block, ofBlock, htraitName.name?, hunit.name?, hblocks, hread]

/-- **Items are read back.** -/
theorem readTokens_tokens {is : List HostItem} (h : ∀ i ∈ is, i.Legible) :
    readTokens (is.flatMap tokens) = some is := by
  have hblocks : blocks ((is.map block).flatMap Block.tokens) = some (is.map block) :=
    blocks_tokens (List.forall_mem_map.mpr fun i hi => isMatched_block (h i hi))
  have hread : (is.map block).mapM ofBlock = some is :=
    mapM_map_eq_some fun i hi => ofBlock_block (h i hi)
  have hform : is.flatMap tokens = (is.map block).flatMap Block.tokens := by
    rw [List.flatMap_map]
    rfl
  rw [readTokens, hform, hblocks]
  exact hread

end HostItem

end HdlSim
