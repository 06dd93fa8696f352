import HdlSim.Proofs.Grammar

/-!
# Reading host expressions

The second stage of reading host code: tokens become expressions.  The reader goes through the
tokens once and keeps what is still waiting for an operand on a stack (`Pending`).
`HostExpr.operand` reads where an operand is due, `HostExpr.further` behind one.

The reader is a parser for the grammar: it reads every expression that the grammar has, to the one
tree that the grammar gives it (`Derives.reads`), and it reads nothing else
(`reader_sound`).  Together they are `parse_eq_some_iff`.
-/

namespace HdlSim

/-- What is called with arguments. -/
inductive Callee where
  | function (name : HostName)
  | method (receiver : HostExpr) (name : String)

/-- The call with these arguments. -/
def Callee.applied : Callee → List HostExpr → HostExpr
  | .function f, args => .call f args
  | .method e m, args => .method e m args

/-- What is still waiting for an operand. -/
inductive Pending where
  | group
  | prefixed (op : HostPrefix)
  | infixed (op : HostInfix) (lhs : HostExpr)
  /-- A call, with the arguments that it has so far. -/
  | call (callee : Callee) (args : List HostExpr)

namespace HostExpr

/-- Completes the operators that wait for this operand, up to the bracket around them. -/
def settle : List Pending → HostExpr → HostExpr × List Pending
  | .prefixed op :: stack, e => settle stack (op.over e)
  | .infixed op l :: stack, e => settle stack (.infixed op l e)
  | stack, e => (e, stack)

/-- An operator arrives behind an operand: those of at least its rank are completed first. -/
def shift (op : HostInfix) : List Pending → HostExpr → List Pending
  | .prefixed p :: stack, e => shift op stack (p.over e)
  | .infixed q l :: stack, e =>
    if op.rank ≤ q.rank then shift op stack (.infixed q l e)
    else .infixed op e :: .infixed q l :: stack
  | stack, e => .infixed op e :: stack

/-- The expression ends before these tokens, unless something still waits. -/
def stop (stack : List Pending) (e : HostExpr) (ts : List Token) :
    Option (HostExpr × List Token) :=
  match settle stack e with
  | (e, []) => some (e, ts)
  | _ => none

mutual

/-- Reads an expression where an operand is due; gives it and the tokens behind it. -/
def operand (stack : List Pending) : List Token → Option (HostExpr × List Token)
  | .sign '!' :: ts => operand (.prefixed .not :: stack) ts
  | .sign '-' :: ts => operand (.prefixed .neg :: stack) ts
  | .sign '(' :: ts => operand (.group :: stack) ts
  | .quoted body :: ts =>
    match Text.unescape body with
    | some cs => further stack (.str (String.ofList cs)) ts
    | none => none
  | .word w :: ts =>
    match Atom.ofWord? w with
    | some .self => further stack .self ts
    | some (.bool b) => further stack (.bool b) ts
    | some (.int n) => further stack (.int n) ts
    | some (.name n) =>
      match ts with
      | .sign '(' :: .sign ')' :: ts => further stack (.call n []) ts
      | .sign '(' :: ts => operand (.call (.function n) [] :: stack) ts
      | ts => further stack (.name n) ts
    | some .selfType =>
      match ts with
      | .sign ':' :: .sign ':' :: .word f :: .sign '(' :: .sign ')' :: ts =>
        match Atom.ofWord? f with
        | some (.name n) => further stack (.selfCall n) ts
        | _ => none
      | _ => none
    | none => none
  | _ => none

/-- Reads what stands behind an operand. -/
def further (stack : List Pending) (e : HostExpr) :
    List Token → Option (HostExpr × List Token)
  | .sign '.' :: .word m :: ts =>
    match Atom.ofWord? m with
    | some (.name n) =>
      match ts with
      | .sign '(' :: .sign ')' :: ts => further stack (.method e m []) ts
      | .sign '(' :: ts => operand (.call (.method e m) [] :: stack) ts
      | ts => further stack (.field e n) ts
    | _ => none
  | .sign ')' :: ts =>
    match settle stack e with
    | (e, .group :: stack) => further stack e ts
    | (e, .call callee args :: stack) => further stack (callee.applied (args ++ [e])) ts
    | (e, []) => some (e, .sign ')' :: ts)
    | _ => none
  | .sign ',' :: ts =>
    match settle stack e with
    | (e, .call callee args :: stack) => operand (.call callee (args ++ [e]) :: stack) ts
    | (e, []) => some (e, .sign ',' :: ts)
    | _ => none
  | .sign '<' :: .sign '<' :: ts => operand (shift .shl stack e) ts
  | .sign '>' :: .sign '>' :: ts => operand (shift .shr stack e) ts
  | .sign c :: ts =>
    match HostInfix.ofSign? c with
    | some op => operand (shift op stack e) ts
    | none => stop stack e (.sign c :: ts)
  | ts => stop stack e ts

end

/-- The expression that tokens are, if it goes to their end. -/
def whole (ts : List Token) : Option HostExpr :=
  match operand [] ts with
  | some (e, []) => some e
  | _ => none

/-- The expression that a text is. -/
def parse (text : String) : Option HostExpr := (lex text.toList).bind whole

end HostExpr

open HostExpr

/-! ### The reader reads what the grammar has -/

/-- The tokens do not turn a name in front of them into a call. -/
def NoCall (ts : List Token) : Prop := ts.head? ≠ some (.sign '(')

/-- The only sign that makes a call is the opening bracket. -/
@[simp] theorem noCall_sign {c : Char} {ts : List Token} :
    NoCall (.sign c :: ts) ↔ c ≠ '(' := by
  simp [NoCall]

/-- Where the tokens end there is no call. -/
@[simp] theorem noCall_nil : NoCall [] := by
  simp [NoCall]

/-- The tokens do not close at once the bracket in front of them. -/
def NoClose (ts : List Token) : Prop := ts.head? ≠ some (.sign ')')

/-- Only a closing bracket closes at once. -/
theorem noClose_cons {t : Token} {ts : List Token} : NoClose (t :: ts) ↔ t ≠ .sign ')' := by
  simp [NoClose]

/-- What can stand behind a name: no call, a call without arguments, or one with arguments. -/
theorem call_cases (ts : List Token) :
    NoCall ts ∨ (∃ us, ts = .sign '(' :: .sign ')' :: us) ∨
      ∃ us, ts = .sign '(' :: us ∧ NoClose us := by
  cases ts with
  | nil => exact .inl noCall_nil
  | cons t us =>
      by_cases hopen : t = .sign '('
      · subst hopen
        by_cases hclose : NoClose us
        · exact .inr (.inr ⟨us, rfl, hclose⟩)
        · obtain ⟨vs, rfl⟩ := List.head?_eq_some_iff.mp (Classical.not_not.mp hclose)
          exact .inr (.inl ⟨vs, rfl⟩)
      · exact .inl fun hhead => hopen (Option.some.inj hhead)

/-- What waits on top of the stack binds looser than this rank. -/
def Opens (k : Nat) : List Pending → Prop
  | .prefixed _ :: _ => prefixRank ≤ k
  | .infixed q _ :: _ => q.rank < k
  | _ => True

/-- What binds looser than a rank binds looser than any higher one. -/
theorem Opens.tighter {j k : Nat} {stack : List Pending} (h : Opens k stack) (hk : k ≤ j) :
    Opens j stack := by
  unfold Opens at h ⊢
  split at h
  · exact Nat.le_trans h hk
  · exact Nat.lt_of_lt_of_le h hk
  · trivial

/-- Whatever waits binds looser than an operand with the signs in front of it. -/
theorem opens_prefixRank (stack : List Pending) : Opens prefixRank stack := by
  unfold Opens
  split
  · exact Nat.le_refl _
  · exact HostInfix.rank_lt_prefixRank _
  · trivial

/-- Whatever waits binds looser than an operand. -/
theorem opens_postfixRank (stack : List Pending) : Opens postfixRank stack :=
  (opens_prefixRank stack).tighter (by decide)

/-- Pending operators of at least a rank, and what they make of an operand. -/
inductive Collapses (k : Nat) : List Pending → HostExpr → HostExpr → Prop
  | nil (e : HostExpr) : Collapses k [] e e
  | prefixed {op : HostPrefix} {stack : List Pending} {e r : HostExpr} (hk : k ≤ prefixRank)
      (h : Collapses k stack (op.over e) r) : Collapses k (.prefixed op :: stack) e r
  | infixed {op : HostInfix} {stack : List Pending} {l e r : HostExpr} (hk : k ≤ op.rank)
      (h : Collapses k stack (.infixed op l e) r) : Collapses k (.infixed op l :: stack) e r

namespace Collapses

variable {j k : Nat} {above stack : List Pending} {e r : HostExpr}

/-- Operators of at least a rank are of at least any lower one. -/
theorem looser (h : Collapses j above e r) (hk : k ≤ j) : Collapses k above e r := by
  induction h with
  | nil e => exact .nil e
  | prefixed hj h ih => exact .prefixed (Nat.le_trans hk hj) ih
  | infixed hj h ih => exact .infixed (Nat.le_trans hk hj) ih

/-- One more sign in front. -/
theorem prefixed_below (op : HostPrefix) (h : Collapses prefixRank above e r) :
    Collapses prefixRank (above ++ [Pending.prefixed op]) e (op.over r) := by
  induction h with
  | nil e => exact .prefixed (Nat.le_refl _) (.nil _)
  | prefixed hk h ih => exact .prefixed hk ih
  | infixed hk h ih => exact .infixed hk ih

/-- One more operator in front, of this rank. -/
theorem infixed_below (op : HostInfix) (l : HostExpr) (h : Collapses op.rank above e r) :
    Collapses op.rank (above ++ [Pending.infixed op l]) e (.infixed op l r) := by
  induction h with
  | nil e => exact .infixed (Nat.le_refl _) (.nil _)
  | prefixed hk h ih => exact .prefixed hk ih
  | infixed hk h ih => exact .infixed hk ih

/-- Nothing binds tighter than what is attached behind an operand. -/
theorem of_postfixRank (h : Collapses postfixRank above e r) : above = [] ∧ e = r := by
  cases h with
  | nil e => exact ⟨rfl, rfl⟩
  | prefixed hk h => exact absurd hk (by decide)
  | @infixed op stack l e r hk h =>
      have hlt := op.rank_lt_prefixRank
      unfold postfixRank at hk
      unfold prefixRank at hlt
      omega

/-- Operators that make something of an operand do so as well above a stack. -/
theorem settle_append (h : Collapses k above e r) (stack : List Pending) :
    settle (above ++ stack) e = settle stack r := by
  induction h with
  | nil e => rfl
  | prefixed hk h ih => rw [List.cons_append, settle, ih]
  | infixed hk h ih => rw [List.cons_append, settle, ih]

/-- An operator that does not bind tighter completes them all. -/
private theorem shift_append {op : HostInfix} (h : Collapses k above e r) (hop : op.rank ≤ k) :
    shift op (above ++ stack) e = shift op stack r := by
  induction h with
  | nil e => rfl
  | prefixed hk h ih => rw [List.cons_append, shift, ih]
  | infixed hk h ih => rw [List.cons_append, shift, if_pos (Nat.le_trans hop hk), ih]

end Collapses

/-- An operator behind an operand waits on the stack, if what waits there binds looser. -/
theorem shift_of_opens {op : HostInfix} {stack : List Pending} (h : Opens op.rank stack)
    (e : HostExpr) : shift op stack e = .infixed op e :: stack := by
  cases stack with
  | nil => rfl
  | cons p stack =>
      cases p with
      | group => rfl
      | call callee args => rfl
      | prefixed q => exact absurd h (Nat.not_le.mpr op.rank_lt_prefixRank)
      | infixed q l =>
          have hlt : q.rank < op.rank := h
          rw [shift, if_neg (by omega)]

section

attribute [local simp] operand further

/-- The signs of an operator are read behind an operand. -/
theorem further_operator (op : HostInfix) (stack : List Pending) (e : HostExpr) (ts : List Token) :
    further stack e (op.chars.map .sign ++ ts) = operand (shift op stack e) ts := by
  cases op <;> simp [HostInfix.chars, HostInfix.ofSign?]

/-- A sign in front of an operand is put on the stack. -/
theorem operand_sign (op : HostPrefix) (stack : List Pending) (ts : List Token) :
    operand stack (.sign op.char :: ts) = operand (.prefixed op :: stack) ts := by
  cases op <;> simp [HostPrefix.char]

/-- A name that is not called is an operand. -/
theorem operand_name {w : String} {n : HostName} (hw : Atom.ofWord? w = some (.name n))
    (stack : List Pending) {ts : List Token} (hts : NoCall ts) :
    operand stack (.word w :: ts) = further stack (.name n) ts := by
  rw [operand.eq_def]
  simp only [hw]
  split
  · simp at hts
  · simp at hts
  · rfl

/-- A name with a bracket behind it that is not closed at once is a call with arguments. -/
theorem operand_call {w : String} {f : HostName} (hw : Atom.ofWord? w = some (.name f))
    (stack : List Pending) {ts : List Token} (hts : NoClose ts) :
    operand stack (.word w :: .sign '(' :: ts) =
      operand (.call (.function f) [] :: stack) ts := by
  rw [operand.eq_def]
  simp only [hw]
  split
  · next heq =>
      cases heq
      exact absurd rfl hts
  · next heq =>
      cases heq
      rfl
  · next hno => exact absurd rfl (hno ts)

/-- A call without arguments is an operand. -/
theorem operand_call_empty {w : String} {f : HostName} (hw : Atom.ofWord? w = some (.name f))
    (stack : List Pending) (ts : List Token) :
    operand stack (.word w :: .sign '(' :: .sign ')' :: ts) = further stack (.call f []) ts := by
  rw [operand.eq_def]
  simp only [hw]

/-- A field makes the operand longer. -/
theorem further_field {w : String} {n : HostName} (hw : Atom.ofWord? w = some (.name n))
    (stack : List Pending) (e : HostExpr) {ts : List Token} (hts : NoCall ts) :
    further stack e (.sign '.' :: .word w :: ts) = further stack (.field e n) ts := by
  rw [further.eq_def]
  simp only [hw]
  split
  · simp at hts
  · simp at hts
  · rfl

/-- A method with a bracket behind it that is not closed at once is called with arguments. -/
theorem further_method {m : String} {n : HostName} (hm : Atom.ofWord? m = some (.name n))
    (stack : List Pending) (e : HostExpr) {ts : List Token} (hts : NoClose ts) :
    further stack e (.sign '.' :: .word m :: .sign '(' :: ts) =
      operand (.call (.method e m) [] :: stack) ts := by
  rw [further.eq_def]
  simp only [hm]
  split
  · next heq =>
      cases heq
      exact absurd rfl hts
  · next heq =>
      cases heq
      rfl
  · next hno => exact absurd rfl (hno ts)

/-- A call of a method without arguments makes the operand longer. -/
theorem further_method_empty {m : String} {n : HostName} (hm : Atom.ofWord? m = some (.name n))
    (stack : List Pending) (e : HostExpr) (ts : List Token) :
    further stack e (.sign '.' :: .word m :: .sign '(' :: .sign ')' :: ts) =
      further stack (.method e m []) ts := by
  rw [further.eq_def]
  simp only [hm]

end

/-- The tokens are read as the expression, but for operators of at least the rank that may still
wait for its last operand. -/
def Reads (k : Nat) (ts : List Token) (e : HostExpr) : Prop :=
  ∀ stack us, Opens k stack → NoCall us →
    ∃ above last, operand stack (ts ++ us) = further (above ++ stack) last us ∧
      Collapses k above last e

/-- At the rank of operands nothing waits. -/
theorem Reads.of_postfixRank {ts : List Token} {e : HostExpr} (h : Reads postfixRank ts e)
    (stack : List Pending) {us : List Token} (hus : NoCall us) :
    operand stack (ts ++ us) = further stack e us := by
  obtain ⟨above, last, hread, hlast⟩ := h stack us (opens_postfixRank stack) hus
  obtain ⟨rfl, rfl⟩ := hlast.of_postfixRank
  exact hread

/-- What is read as an operand by itself leaves nothing waiting. -/
theorem reads_postfixRank {ts : List Token} {e : HostExpr}
    (h : ∀ stack us, NoCall us → operand stack (ts ++ us) = further stack e us) :
    Reads postfixRank ts e :=
  fun stack us _ hus => ⟨[], e, h stack us hus, .nil e⟩

/-- A bracket around an expression is complete at its closing sign. -/
theorem Reads.group {ts : List Token} {e : HostExpr} (h : Reads 0 ts e) (stack : List Pending)
    (us : List Token) :
    operand (.group :: stack) (ts ++ .sign ')' :: us) = further stack e us := by
  obtain ⟨above, last, hread, hlast⟩ := h (.group :: stack) (.sign ')' :: us) trivial (by simp)
  rw [hread, further, hlast.settle_append]
  rfl

/-- An argument is complete at the sign behind it. -/
theorem Reads.argument {ts : List Token} {e : HostExpr} (h : Reads 0 ts e) (callee : Callee)
    (args : List HostExpr) (stack : List Pending) (us : List Token) :
    operand (.call callee args :: stack) (ts ++ .sign ')' :: us) =
        further stack (callee.applied (args ++ [e])) us ∧
      operand (.call callee args :: stack) (ts ++ .sign ',' :: us) =
        operand (.call callee (args ++ [e]) :: stack) us := by
  constructor
  · obtain ⟨above, last, hread, hlast⟩ :=
      h (.call callee args :: stack) (.sign ')' :: us) trivial (by simp)
    rw [hread, further, hlast.settle_append]
    rfl
  · obtain ⟨above, last, hread, hlast⟩ :=
      h (.call callee args :: stack) (.sign ',' :: us) trivial (by simp)
    rw [hread, further, hlast.settle_append]
    rfl

/-- The arguments of a call are read in order. -/
theorem reads_arguments {parts : List (List Token × HostExpr)} (hne : parts ≠ [])
    (h : ∀ p ∈ parts, Reads 0 p.1 p.2) (callee : Callee) (args : List HostExpr)
    (stack : List Pending) (us : List Token) :
    operand (.call callee args :: stack)
        (commaTokens (parts.map Prod.fst) ++ .sign ')' :: us) =
      further stack (callee.applied (args ++ parts.map Prod.snd)) us := by
  induction parts generalizing args with
  | nil => exact absurd rfl hne
  | cons p parts ih =>
      have hp := (h p List.mem_cons_self).argument callee args stack
      cases parts with
      | nil => exact (hp us).1
      | cons q parts =>
          have hrest := ih (by simp) (fun r hr => h r (List.mem_cons_of_mem _ hr)) (args ++ [p.2])
          have htokens : commaTokens ((p :: q :: parts).map Prod.fst) ++ .sign ')' :: us =
              p.1 ++ .sign ',' ::
                (commaTokens ((q :: parts).map Prod.fst) ++ .sign ')' :: us) := by
            rw [List.map_cons, commaTokens_cons _ (by simp)]
            simp
          rw [htokens, (hp _).2, hrest, List.append_assoc, List.singleton_append]
          rfl

/-- Arguments do not begin with the bracket that would close them. -/
theorem commaTokens_head {parts : List (List Token × HostExpr)} (hne : parts ≠ [])
    (h : ∀ p ∈ parts, Derives 0 p.1 p.2) :
    ∃ t us, commaTokens (parts.map Prod.fst) = t :: us ∧ t ≠ .sign ')' := by
  obtain ⟨p, parts, rfl⟩ := List.exists_cons_of_ne_nil hne
  obtain ⟨t, us, hform, ht⟩ := (h p List.mem_cons_self).head
  cases parts with
  | nil => exact ⟨t, us, by simp [commaTokens, joinTokens, hform], ht⟩
  | cons q parts =>
      refine ⟨t, us ++ .sign ',' :: commaTokens ((q :: parts).map Prod.fst), ?_, ht⟩
      rw [List.map_cons, commaTokens_cons _ (by simp), hform, List.cons_append]

/-- **The reader is complete.**  What the grammar derives is read, in every context, as the tree
that the grammar gives it. -/
theorem Derives.reads {k : Nat} {ts : List Token} {e : HostExpr} (h : Derives k ts e) :
    Reads k ts e := by
  induction h with
  | self =>
      refine reads_postfixRank fun stack us hus => ?_
      have hself : Atom.ofWord? "self" = some .self := by decide
      rw [List.singleton_append, operand.eq_def]
      simp only [hself]
  | bool hw =>
      refine reads_postfixRank fun stack us hus => ?_
      rw [List.singleton_append, operand.eq_def]
      simp only [hw]
  | int hw =>
      refine reads_postfixRank fun stack us hus => ?_
      rw [List.singleton_append, operand.eq_def]
      simp only [hw]
  | name hw => exact reads_postfixRank fun stack us hus => operand_name hw stack hus
  | str hbody =>
      refine reads_postfixRank fun stack us hus => ?_
      rw [List.singleton_append, operand.eq_def]
      simp only [hbody]
  | group he ih =>
      refine reads_postfixRank fun stack us hus => ?_
      rw [List.append_assoc, List.cons_append, operand]
      exact ih.group stack us
  | selfCall hw =>
      refine reads_postfixRank fun stack us hus => ?_
      have hSelf : Atom.ofWord? "Self" = some .selfType := by decide
      rw [operand.eq_def]
      simp [hSelf, hw]
  | @call w f args hw hargs ih =>
      refine reads_postfixRank fun stack us hus => ?_
      rw [List.append_assoc, List.cons_append, List.cons_append]
      by_cases hne : args = []
      · subst hne
        exact operand_call_empty hw stack us
      · obtain ⟨t, vs, hform, ht⟩ := commaTokens_head hne hargs
        have hread := reads_arguments hne ih (.function f) [] stack us
        rw [hform, List.cons_append] at hread ⊢
        rw [operand_call hw stack (noClose_cons.mpr ht)]
        exact hread
  | @field ts e w n he hw ih =>
      refine reads_postfixRank fun stack us hus => ?_
      rw [List.append_assoc, ih.of_postfixRank stack (by simp)]
      exact further_field hw stack e hus
  | @method ts e m n args he hm hargs ihe ih =>
      refine reads_postfixRank fun stack us hus => ?_
      rw [List.append_assoc, List.append_assoc, List.cons_append,
        ihe.of_postfixRank stack (by simp)]
      by_cases hne : args = []
      · subst hne
        exact further_method_empty hm stack e us
      · obtain ⟨t, vs, hform, ht⟩ := commaTokens_head hne hargs
        have hread := reads_arguments hne ih (.method e m) [] stack us
        simp only [List.cons_append, List.nil_append]
        rw [hform, List.cons_append] at hread ⊢
        rw [further_method hm stack e (noClose_cons.mpr ht)]
        exact hread
  | prefixed op he ih =>
      intro stack us hstack hus
      obtain ⟨above, last, hread, hlast⟩ := ih (.prefixed op :: stack) us (Nat.le_refl _) hus
      refine ⟨above ++ [Pending.prefixed op], last, ?_, hlast.prefixed_below op⟩
      rw [List.cons_append, operand_sign, hread, List.append_assoc, List.singleton_append]
  | @infixed ls rs l r op hl hr ihl ihr =>
      intro stack us hstack hus
      have hsigns : NoCall (op.chars.map .sign ++ (rs ++ us)) := by
        cases op <;> simp [HostInfix.chars]
      obtain ⟨above, last, hread, hlast⟩ := ihl stack _ hstack hsigns
      obtain ⟨above', last', hread', hlast'⟩ :=
        ihr (.infixed op l :: stack) us (Nat.lt_succ_self _) hus
      refine ⟨above' ++ [Pending.infixed op l], last', ?_,
        (hlast'.looser (Nat.le_succ _)).infixed_below op l⟩
      rw [List.append_assoc, List.append_assoc, hread, further_operator,
        hlast.shift_append (Nat.le_refl _), shift_of_opens hstack, hread', List.append_assoc,
        List.singleton_append]
  | looser he hk ih =>
      intro stack us hstack hus
      obtain ⟨above, last, hread, hlast⟩ := ih stack us (hstack.tighter hk) hus
      exact ⟨above, last, hread, hlast.looser hk⟩

/-! ### The reader reads nothing else -/

/-- The tokens of what is called. -/
inductive Callee.Derives : Callee → List Token → Prop
  | function {w : String} {f : HostName} (hw : Atom.ofWord? w = some (.name f)) :
      Callee.Derives (.function f) [.word w]
  | method {ts : List Token} {e : HostExpr} {m : String} {n : HostName}
      (he : HdlSim.Derives postfixRank ts e) (hm : Atom.ofWord? m = some (.name n)) :
      Callee.Derives (.method e m) (ts ++ [.sign '.', .word m])

/-- A call of what these tokens name. -/
theorem Callee.Derives.applied {callee : Callee} {ts : List Token}
    {parts : List (List Token × HostExpr)} (h : callee.Derives ts)
    (hparts : ∀ p ∈ parts, HdlSim.Derives 0 p.1 p.2) :
    HdlSim.Derives postfixRank
      (ts ++ .sign '(' :: commaTokens (parts.map Prod.fst) ++ [Token.sign ')'])
      (callee.applied (parts.map Prod.snd)) := by
  cases h with
  | function hw => exact .call hw hparts
  | method he hm =>
      have hcall := HdlSim.Derives.method he hm hparts
      simpa [Callee.applied] using hcall

/-- Arguments, each with the comma behind it. -/
def argumentTokens (parts : List (List Token × HostExpr)) : List Token :=
  parts.flatMap fun p => p.1 ++ [.sign ',']

/-- The last argument has no comma behind it. -/
private theorem commaTokens_append (parts : List (List Token × HostExpr)) (ts : List Token)
    (e : HostExpr) :
    commaTokens ((parts ++ [(ts, e)]).map Prod.fst) = argumentTokens parts ++ ts := by
  induction parts with
  | nil => rfl
  | cons p parts ih =>
      rw [List.cons_append, List.map_cons, commaTokens_cons _ (by simp), ih]
      simp [argumentTokens]

/-- One more argument that is derived. -/
theorem derives_snoc {parts : List (List Token × HostExpr)} {es : List Token} {e : HostExpr}
    (hparts : ∀ p ∈ parts, Derives 0 p.1 p.2) (he : Derives 0 es e) :
    ∀ p ∈ parts ++ [(es, e)], Derives 0 p.1 p.2 := by
  intro p hp
  rcases List.mem_append.mp hp with hp | hp
  · exact hparts p hp
  · rw [List.mem_singleton.mp hp]
    exact he

/-- The tokens that have been read when this waits on the stack. -/
inductive Awaits : List Pending → List Token → Prop
  | nil : Awaits [] []
  | group {stack : List Pending} {front : List Token} (h : Awaits stack front) :
      Awaits (.group :: stack) (front ++ [.sign '('])
  | prefixed {stack : List Pending} {front : List Token} (op : HostPrefix)
      (h : Awaits stack front) : Awaits (.prefixed op :: stack) (front ++ [.sign op.char])
  | infixed {stack : List Pending} {front ls : List Token} {l : HostExpr} {op : HostInfix}
      (h : Awaits stack front) (hstack : Opens op.rank stack) (hl : Derives op.rank ls l) :
      Awaits (.infixed op l :: stack) (front ++ (ls ++ op.chars.map .sign))
  | call {stack : List Pending} {front ts : List Token} {callee : Callee}
      {parts : List (List Token × HostExpr)} (h : Awaits stack front) (hcallee : callee.Derives ts)
      (hparts : ∀ p ∈ parts, Derives 0 p.1 p.2) :
      Awaits (.call callee (parts.map Prod.snd) :: stack)
        (front ++ (ts ++ .sign '(' :: argumentTokens parts))

/-- The opening bracket of a call has been read. -/
theorem Awaits.call_start {stack : List Pending} {front ts : List Token} {callee : Callee}
    (h : Awaits stack front) (hcallee : callee.Derives ts) :
    Awaits (.call callee [] :: stack) (front ++ (ts ++ [Token.sign '('])) := by
  have hwait := h.call hcallee (List.forall_mem_nil _)
  simpa [argumentTokens] using hwait

/-- Behind the last argument, the tokens of a call are complete. -/
theorem Awaits.call_close {stack : List Pending} {front es : List Token} {callee : Callee}
    {args : List HostExpr} {e : HostExpr} (h : Awaits (.call callee args :: stack) front)
    (he : Derives 0 es e) :
    ∃ front' ts, front ++ (es ++ [Token.sign ')']) = front' ++ ts ∧ Awaits stack front' ∧
      Derives postfixRank ts (callee.applied (args ++ [e])) := by
  cases h with
  | @call _ front ts _ parts h hcallee hparts =>
      have hcall := hcallee.applied (derives_snoc hparts he)
      rw [commaTokens_append, List.map_append] at hcall
      exact ⟨front, _, by simp, h, hcall⟩

/-- Behind a comma, one more argument of a call is complete. -/
theorem Awaits.call_comma {stack : List Pending} {front es : List Token} {callee : Callee}
    {args : List HostExpr} {e : HostExpr} (h : Awaits (.call callee args :: stack) front)
    (he : Derives 0 es e) :
    Awaits (.call callee (args ++ [e]) :: stack) (front ++ (es ++ [Token.sign ','])) := by
  cases h with
  | @call _ front ts _ parts h hcallee hparts =>
      have hwait := h.call hcallee (derives_snoc hparts he)
      simpa [argumentTokens] using hwait

/-- Completing the operators that wait keeps the tokens that have been read. -/
theorem Awaits.settle {stack : List Pending} {front es : List Token} {k : Nat} {e : HostExpr}
    (h : Awaits stack front) (hstack : Opens k stack) (he : Derives k es e) :
    ∃ front' es', front ++ es = front' ++ es' ∧
      Awaits (settle stack e).2 front' ∧ Derives 0 es' (HostExpr.settle stack e).1 := by
  induction h generalizing k es e with
  | nil => exact ⟨[], es, rfl, .nil, he.looser (Nat.zero_le k)⟩
  | group h ih => exact ⟨_, es, rfl, .group h, he.looser (Nat.zero_le k)⟩
  | call h hcallee hparts ih =>
      exact ⟨_, es, rfl, .call h hcallee hparts, he.looser (Nat.zero_le k)⟩
  | @prefixed stack front op h ih =>
      obtain ⟨front', es', hform, hrest⟩ :=
        ih (opens_prefixRank stack) (.prefixed op (he.looser hstack))
      exact ⟨front', es', by rw [← hform]; simp, hrest⟩
  | @infixed stack front ls l op h hopens hl ih =>
      obtain ⟨front', es', hform, hrest⟩ := ih hopens (.infixed op hl (he.looser hstack))
      exact ⟨front', es', by rw [← hform]; simp, hrest⟩

/-- An operator behind an operand completes what binds at least as tight and waits itself. -/
theorem Awaits.shift {stack : List Pending} {front es : List Token} {k : Nat} {e : HostExpr}
    {op : HostInfix} (h : Awaits stack front) (hstack : Opens k stack) (hop : op.rank ≤ k)
    (he : Derives k es e) :
    Awaits (shift op stack e) (front ++ (es ++ op.chars.map .sign)) := by
  induction h generalizing k es e with
  | nil => exact .infixed .nil trivial (he.looser hop)
  | group h ih => exact .infixed (.group h) trivial (he.looser hop)
  | call h hcallee hparts ih =>
      exact .infixed (.call h hcallee hparts) trivial (he.looser hop)
  | @prefixed stack front p h ih =>
      have hwait := ih (opens_prefixRank stack) (Nat.le_of_lt op.rank_lt_prefixRank)
        (.prefixed p (he.looser hstack))
      simpa [HostExpr.shift] using hwait
  | @infixed stack front ls l q h hopens hl ih =>
      rw [HostExpr.shift]
      split
      · rename_i hle
        have hwait := ih hopens hle (.infixed q hl (he.looser hstack))
        simpa using hwait
      · rename_i hlt
        exact .infixed (.infixed h hopens hl) (Nat.not_le.mp hlt) (he.looser hop)

/-- What is read from the tokens is derived from them and the tokens in front of them. -/
def Sound (front ts : List Token) (result : Option (HostExpr × List Token)) : Prop :=
  ∀ e us, result = some (e, us) → ∃ used, ts = used ++ us ∧ Derives 0 (front ++ used) e

/-- Nothing wrong is read where nothing is read. -/
theorem sound_none (front ts : List Token) : Sound front ts none := by
  intro e us h
  cases h

/-- A token that has been read belongs to the tokens in front. -/
theorem Sound.cons {front ts : List Token} {t : Token} {result : Option (HostExpr × List Token)}
    (h : Sound (front ++ [t]) ts result) : Sound front (t :: ts) result := by
  intro e us hresult
  obtain ⟨used, rfl, hderives⟩ := h e us hresult
  exact ⟨t :: used, rfl, by simpa using hderives⟩

/-- At the end nothing may wait. -/
theorem sound_done {stack : List Pending} {front es : List Token} {e r : HostExpr}
    (hfront : Awaits stack front) (he : Derives postfixRank es e)
    (hsettle : settle stack e = (r, [])) (ts : List Token) :
    Sound (front ++ es) ts (some (r, ts)) := by
  intro r' us hresult
  cases hresult
  obtain ⟨front', es', hform, hwait, hderives⟩ := hfront.settle (opens_postfixRank stack) he
  rw [hsettle] at hwait hderives
  cases hwait
  exact ⟨[], rfl, by simpa [hform] using hderives⟩

/-- Where the expression ends, it is what has been read. -/
private theorem sound_stop {stack : List Pending} {front es : List Token} {e : HostExpr}
    (hfront : Awaits stack front) (he : Derives postfixRank es e) (ts : List Token) :
    Sound (front ++ es) ts (stop stack e ts) := by
  unfold stop
  split
  · exact sound_done hfront he ‹_› ts
  · exact sound_none _ _

/-- The reader is sound where an operand is due. -/
def SoundOperand (stack : List Pending) (ts : List Token) : Prop :=
  ∀ front, Awaits stack front → Sound front ts (operand stack ts)

/-- The reader is sound behind an operand. -/
def SoundFurther (stack : List Pending) (e : HostExpr) (ts : List Token) : Prop :=
  ∀ front es, Awaits stack front → Derives postfixRank es e →
    Sound (front ++ es) ts (further stack e ts)

/-- The reader is sound on these tokens, whatever waits in front of them. -/
structure SoundOn (ts : List Token) : Prop where
  operand : ∀ stack, SoundOperand stack ts
  further : ∀ stack e, SoundFurther stack e ts

section

variable {stack : List Pending} {e : HostExpr} {w : String} {n : HostName} {ts : List Token}

/-! #### Where an operand is due -/

/-- The tokens with which an operand begins; on all others the reader fails. -/
theorem operand_cases (ts : List Token) :
    (∃ op us, ts = .sign (HostPrefix.char op) :: us) ∨ (∃ us, ts = .sign '(' :: us) ∨
      (∃ body us, ts = .quoted body :: us) ∨ (∃ w us, ts = .word w :: us) ∨
      ∀ stack, operand stack ts = none := by
  by_cases hsign : ∃ op us, ts = .sign (HostPrefix.char op) :: us
  · exact .inl hsign
  by_cases hgroup : ∃ us, ts = .sign '(' :: us
  · exact .inr (.inl hgroup)
  by_cases hquoted : ∃ body us, ts = .quoted body :: us
  · exact .inr (.inr (.inl hquoted))
  by_cases hword : ∃ w us, ts = .word w :: us
  · exact .inr (.inr (.inr (.inl hword)))
  refine .inr (.inr (.inr (.inr fun stack => ?_)))
  rw [operand]
  · rintro us rfl
    exact hsign ⟨.not, us, rfl⟩
  · rintro us rfl
    exact hsign ⟨.neg, us, rfl⟩
  · rintro us rfl
    exact hgroup ⟨us, rfl⟩
  · rintro body us rfl
    exact hquoted ⟨body, us, rfl⟩
  · rintro w us rfl
    exact hword ⟨w, us, rfl⟩

/-- A sign in front of an operand waits on the stack. -/
theorem soundOperand_prefixed (op : HostPrefix) (ih : SoundOperand (.prefixed op :: stack) ts) :
    SoundOperand stack (.sign op.char :: ts) := by
  intro front hfront
  rw [operand_sign]
  exact (ih _ (hfront.prefixed op)).cons

/-- An opening bracket waits on the stack. -/
theorem soundOperand_group (ih : SoundOperand (.group :: stack) ts) :
    SoundOperand stack (.sign '(' :: ts) := by
  intro front hfront
  rw [operand]
  exact (ih _ hfront.group).cons

/-- A string is an operand, unless it is malformed. -/
theorem soundOperand_quoted (body : List Char) (ih : ∀ e, SoundFurther stack e ts) :
    SoundOperand stack (.quoted body :: ts) := by
  intro front hfront
  rw [operand.eq_def]
  cases hbody : Text.unescape body with
  | some cs => simpa only [hbody] using (ih _ front _ hfront (.str hbody)).cons
  | none => simpa only [hbody] using sound_none _ _

/-- A word that is an operand by itself. -/
theorem soundOperand_single (hread : operand stack (.word w :: ts) = further stack e ts)
    (hw : Derives postfixRank [.word w] e) (ih : SoundFurther stack e ts) :
    SoundOperand stack (.word w :: ts) := by
  intro front hfront
  rw [hread]
  exact (ih front _ hfront hw).cons

/-- A call without arguments. -/
theorem soundOperand_call_empty (hw : Atom.ofWord? w = some (.name n))
    (ih : SoundFurther stack (.call n []) ts) :
    SoundOperand stack (.word w :: .sign '(' :: .sign ')' :: ts) := by
  intro front hfront
  have hcall : Derives postfixRank [.word w, .sign '(', .sign ')'] (.call n []) :=
    (Callee.Derives.function hw).applied (List.forall_mem_nil _)
  have hsound := ih front _ hfront hcall
  rw [operand_call_empty hw]
  exact Sound.cons (Sound.cons (Sound.cons (by simpa using hsound)))

/-- A call waits on the stack until its arguments are complete. -/
theorem soundOperand_call (hw : Atom.ofWord? w = some (.name n)) (hts : NoClose ts)
    (ih : SoundOperand (.call (.function n) [] :: stack) ts) :
    SoundOperand stack (.word w :: .sign '(' :: ts) := by
  intro front hfront
  have hsound := ih _ (hfront.call_start (.function hw))
  rw [operand_call hw stack hts]
  exact Sound.cons (Sound.cons (by simpa using hsound))

/-- The word for the own type begins a call of one of its functions, or nothing. -/
theorem soundOperand_selfType (hw : Atom.ofWord? w = some .selfType)
    (ih : ∀ us e, us.length ≤ ts.length → SoundFurther stack e us) :
    SoundOperand stack (.word w :: ts) := by
  intro front hfront
  obtain rfl := Atom.eq_of_ofWord?.2 hw
  rw [operand.eq_def]
  simp only [hw]
  split
  · next f us =>
      cases hf : Atom.ofWord? f with
      | none => exact sound_none _ _
      | some atom =>
          cases atom with
          | name n =>
              have hlength : us.length ≤
                  (.sign ':' :: .sign ':' :: .word f :: .sign '(' :: .sign ')' :: us).length := by
                simp only [List.length_cons]
                omega
              have hsound := ih us _ hlength front _ hfront (.selfCall hf)
              intro r rest hresult
              obtain ⟨used, rfl, hderives⟩ := hsound r rest hresult
              exact ⟨_ :: _ :: _ :: _ :: _ :: _ :: used, rfl, by simpa using hderives⟩
          | _ => exact sound_none _ _
  · exact sound_none _ _

/-- A word is an operand by itself, the beginning of a call, or refused. -/
theorem soundOperand_word (w : String) (ih : ∀ us, us.length ≤ ts.length → SoundOn us) :
    SoundOperand stack (.word w :: ts) := by
  have hbehind := ih ts (Nat.le_refl _)
  cases hw : Atom.ofWord? w with
  | none =>
      intro front hfront
      rw [operand.eq_def]
      simpa only [hw] using sound_none _ _
  | some atom =>
      cases atom with
      | self =>
          obtain rfl := Atom.eq_of_ofWord?.1 hw
          refine soundOperand_single ?_ .self (hbehind.further _ _)
          rw [operand.eq_def]
          simp only [hw]
      | selfType => exact soundOperand_selfType hw fun us e hus => (ih us hus).further _ e
      | bool b =>
          refine soundOperand_single ?_ (.bool hw) (hbehind.further _ _)
          rw [operand.eq_def]
          simp only [hw]
      | int n =>
          refine soundOperand_single ?_ (.int hw) (hbehind.further _ _)
          rw [operand.eq_def]
          simp only [hw]
      | name n =>
          rcases call_cases ts with hcall | ⟨us, rfl⟩ | ⟨us, rfl, hus⟩
          · exact soundOperand_single (operand_name hw stack hcall) (.name hw)
              (hbehind.further _ _)
          · exact soundOperand_call_empty hw ((ih us (by simp; omega)).further _ _)
          · exact soundOperand_call hw hus ((ih us (by simp)).operand _)

/-! #### Behind an operand -/

/-- The sign of an operator is all of it, if it has one sign. -/
theorem HostInfix.chars_of_ofSign? {c : Char} {op : HostInfix}
    (h : HostInfix.ofSign? c = some op) : op.chars = [c] := by
  unfold HostInfix.ofSign? at h
  grind [HostInfix.chars]

/-- The tokens with which an expression goes on behind an operand; at all others it ends. -/
theorem further_cases (ts : List Token) :
    (∃ m us, ts = .sign '.' :: .word m :: us) ∨ (∃ us, ts = .sign ')' :: us) ∨
      (∃ us, ts = .sign ',' :: us) ∨ (∃ op us, ts = (HostInfix.chars op).map .sign ++ us) ∨
      ∀ stack e, further stack e ts = stop stack e ts := by
  by_cases hmember : ∃ m us, ts = .sign '.' :: .word m :: us
  · exact .inl hmember
  by_cases hclose : ∃ us, ts = .sign ')' :: us
  · exact .inr (.inl hclose)
  by_cases hcomma : ∃ us, ts = .sign ',' :: us
  · exact .inr (.inr (.inl hcomma))
  by_cases hop : ∃ op us, ts = (HostInfix.chars op).map .sign ++ us
  · exact .inr (.inr (.inr (.inl hop)))
  refine .inr (.inr (.inr (.inr fun stack e => ?_)))
  rw [further.eq_def]
  split
  · exact absurd ⟨_, _, rfl⟩ hmember
  · exact absurd ⟨_, rfl⟩ hclose
  · exact absurd ⟨_, rfl⟩ hcomma
  · exact absurd ⟨.shl, _, rfl⟩ hop
  · exact absurd ⟨.shr, _, rfl⟩ hop
  · next c us _ _ _ _ _ =>
      cases hsign : HostInfix.ofSign? c with
      | none => rfl
      | some op => exact absurd ⟨op, us, by rw [HostInfix.chars_of_ofSign? hsign]; rfl⟩ hop
  · rfl

/-- A field behind an operand. -/
theorem soundFurther_field (hw : Atom.ofWord? w = some (.name n)) (hts : NoCall ts)
    (ih : SoundFurther stack (.field e n) ts) :
    SoundFurther stack e (.sign '.' :: .word w :: ts) := by
  intro front es hfront he
  have hsound := ih front _ hfront (.field he hw)
  rw [further_field hw stack e hts]
  exact Sound.cons (Sound.cons (by simpa using hsound))

/-- A call of a method without arguments. -/
theorem soundFurther_method_empty (hw : Atom.ofWord? w = some (.name n))
    (ih : SoundFurther stack (.method e w []) ts) :
    SoundFurther stack e (.sign '.' :: .word w :: .sign '(' :: .sign ')' :: ts) := by
  intro front es hfront he
  have hcall := (Callee.Derives.method he hw).applied (List.forall_mem_nil _)
  have hsound := ih front _ hfront hcall
  rw [further_method_empty hw]
  exact Sound.cons (Sound.cons (Sound.cons (Sound.cons
    (by simpa [commaTokens, joinTokens] using hsound))))

/-- A call of a method waits on the stack until its arguments are complete. -/
theorem soundFurther_method (hw : Atom.ofWord? w = some (.name n)) (hts : NoClose ts)
    (ih : SoundOperand (.call (.method e w) [] :: stack) ts) :
    SoundFurther stack e (.sign '.' :: .word w :: .sign '(' :: ts) := by
  intro front es hfront he
  have hsound := ih _ (hfront.call_start (.method he hw))
  rw [further_method hw stack e hts]
  exact Sound.cons (Sound.cons (Sound.cons (by simpa using hsound)))

/-- A dot and a word: a field or a method, or nothing if the word is no name. -/
theorem soundFurther_member (w : String) (ih : ∀ us, us.length ≤ ts.length → SoundOn us) :
    SoundFurther stack e (.sign '.' :: .word w :: ts) := by
  by_cases hname : ∃ n, Atom.ofWord? w = some (.name n)
  · obtain ⟨n, hw⟩ := hname
    rcases call_cases ts with hcall | ⟨us, rfl⟩ | ⟨us, rfl, hus⟩
    · exact soundFurther_field hw hcall ((ih ts (Nat.le_refl _)).further _ _)
    · exact soundFurther_method_empty hw ((ih us (by simp; omega)).further _ _)
    · exact soundFurther_method hw hus ((ih us (by simp)).operand _)
  · intro front es hfront he
    have hnone : further stack e (.sign '.' :: .word w :: ts) = none := by
      rw [further.eq_def]
      cases hw : Atom.ofWord? w with
      | none => simp only [hw]
      | some atom =>
          cases atom with
          | name n => exact absurd ⟨n, hw⟩ hname
          | _ => simp only [hw]
    rw [hnone]
    exact sound_none _ _

/-- A closing bracket settles what waits inside of it, up to the group or call that it ends. -/
theorem soundFurther_close (ih : ∀ rest r, SoundFurther rest r ts) :
    SoundFurther stack e (.sign ')' :: ts) := by
  intro front es hfront he
  obtain ⟨front', es', hform, hwait, hderives⟩ := hfront.settle (opens_postfixRank stack) he
  rw [further]
  split
  · next r rest hsettle =>
      rw [hsettle] at hwait hderives
      cases hwait with
      | @group _ front' hwait =>
          have hsound := ih rest r front' _ hwait (.group hderives)
          exact Sound.cons (by simpa [hform] using hsound)
  · next r callee args rest hsettle =>
      rw [hsettle] at hwait hderives
      obtain ⟨front'', vs, hcall, hrest, happlied⟩ := hwait.call_close hderives
      have hsound := ih rest _ front'' vs hrest happlied
      exact Sound.cons (by simpa [hform, hcall] using hsound)
  · next hsettle => exact sound_done hfront he hsettle _
  · exact sound_none _ _

/-- A comma does the same, but only inside of a call. -/
theorem soundFurther_comma (ih : ∀ rest, SoundOperand rest ts) :
    SoundFurther stack e (.sign ',' :: ts) := by
  intro front es hfront he
  obtain ⟨front', es', hform, hwait, hderives⟩ := hfront.settle (opens_postfixRank stack) he
  rw [further]
  split
  · next r callee args rest hsettle =>
      rw [hsettle] at hwait hderives
      have hsound := ih _ _ (hwait.call_comma hderives)
      exact Sound.cons (by simpa [hform] using hsound)
  · next hsettle => exact sound_done hfront he hsettle _
  · exact sound_none _ _

/-- An operator waits on the stack for its second operand. -/
theorem soundFurther_operator (op : HostInfix) (ih : SoundOperand (shift op stack e) ts) :
    SoundFurther stack e (op.chars.map .sign ++ ts) := by
  intro front es hfront he
  have hrank : op.rank ≤ postfixRank :=
    Nat.le_trans (Nat.le_of_lt op.rank_lt_prefixRank) (by decide)
  have hwait := hfront.shift (opens_postfixRank stack) hrank he
  have hsound := ih _ hwait
  rw [further_operator]
  intro r us hresult
  obtain ⟨used, rfl, hderives⟩ := hsound r us hresult
  exact ⟨op.chars.map .sign ++ used, by simp, by simpa using hderives⟩

end

/-- **The reader is sound.**  Along every run, what has been read is what waits on the stack. -/
theorem reader_sound (ts : List Token) : SoundOn ts := by
  -- Every branch goes on with fewer tokens than it has been given.
  induction hlength : ts.length using Nat.strongRecOn generalizing ts with
  | ind length ih =>
      subst hlength
      have hrest : ∀ us : List Token, us.length < ts.length → SoundOn us :=
        fun us hus => ih _ hus us rfl
      constructor
      · intro stack
        rcases operand_cases ts with
          ⟨op, us, rfl⟩ | ⟨us, rfl⟩ | ⟨body, us, rfl⟩ | ⟨w, us, rfl⟩ | hnone
        · exact soundOperand_prefixed op ((hrest us (by simp)).operand _)
        · exact soundOperand_group ((hrest us (by simp)).operand _)
        · exact soundOperand_quoted body ((hrest us (by simp)).further _)
        · exact soundOperand_word w fun vs hvs => hrest vs (Nat.lt_succ_of_le hvs)
        · intro front _
          rw [hnone]
          exact sound_none _ _
      · intro stack e
        rcases further_cases ts with
          ⟨w, us, rfl⟩ | ⟨us, rfl⟩ | ⟨us, rfl⟩ | ⟨op, us, rfl⟩ | hstop
        · refine soundFurther_member w fun vs hvs => hrest vs ?_
          simp only [List.length_cons]
          omega
        · exact soundFurther_close ((hrest us (by simp)).further)
        · exact soundFurther_comma ((hrest us (by simp)).operand)
        · refine soundFurther_operator op ((hrest us ?_).operand _)
          cases op <;> simp +arith [HostInfix.chars]
        · intro front es hfront he
          rw [hstop]
          exact sound_stop hfront he ts

/-- **The reader is a parser for the grammar.** -/
theorem whole_eq_some_iff {ts : List Token} {e : HostExpr} :
    whole ts = some e ↔ Derives 0 ts e := by
  unfold whole
  constructor
  · intro h
    split at h
    · rename_i r hread
      cases h
      obtain ⟨used, rfl, hderives⟩ := (reader_sound ts).operand [] [] .nil _ _ hread
      simpa using hderives
    · cases h
  · intro hderives
    obtain ⟨above, last, hread, hlast⟩ := hderives.reads [] [] trivial noCall_nil
    have hstop : further above last [] = some (e, []) := by
      have hsettle := hlast.settle_append []
      simp only [List.append_nil] at hsettle
      simp [further, stop, hsettle, settle]
    simp only [List.append_nil] at hread
    simp [hread, hstop]

/-- **Texts are parsed by the grammar**: the reader gives a text the tree that its tokens form. -/
theorem parse_eq_some_iff {text : String} {e : HostExpr} :
    parse text = some e ↔ ∃ ts, lex text.toList = some ts ∧ Derives 0 ts e := by
  rw [parse, Option.bind_eq_some_iff]
  simp only [whole_eq_some_iff]

example : parse "a - b - c * -1" =
    some (.infixed .sub (.infixed .sub (.name (.plain "a")) (.name (.plain "b")))
      (.infixed .mul (.name (.plain "c")) (.int (-1)))) := by
  rfl

end HdlSim
