import HdlSim.Proofs.Acceptance
import HdlSim.Proofs.Emission

/-!
# Collected targets are the written signals

The targets of a body are collected by one traversal of its statements, and the body is written by
another.  Both find the same signals.  Collecting adds the roots of all assignments, each at its
first occurrence (`addTargets_eq`); in the text of the body, the signals that are written are those
roots, once for every assignment and in order, and only signals among them are made invalid
(`BlockMirrors.accounts`).

Main statement: `targets_are_written`.
-/

namespace HdlSim

/-! ### Collecting -/

/-- A target is collected if and only if it is given. -/
theorem mem_addTargets {n : Ident} {seen ns : List Ident} :
    n ∈ addTargets seen ns ↔ n ∈ seen ∨ n ∈ ns := by
  rw [addTargets_eq, List.mem_append, List.mem_eraseDups, List.mem_filter]
  by_cases h : n ∈ seen <;> simp [h]

/-- Names that are there already are not added. -/
theorem addTargets_of_subset {seen ns : List Ident} (h : ns ⊆ seen) :
    addTargets seen ns = seen := by
  have hnone : ns.filter (· ∉ seen) = [] := by
    refine List.filter_eq_nil_iff.mpr fun n hn => ?_
    simpa using h hn
  rw [addTargets_eq, hnone]
  exact List.append_nil seen

private theorem nodup_addTarget {seen : List Ident} (h : seen.Nodup) (n : Ident) :
    (addTarget seen (some n)).Nodup := by
  by_cases hn : n ∈ seen
  · simpa [addTarget, hn] using h
  · have hadd : addTarget seen (some n) = seen ++ [n] := by simp [addTarget, hn]
    rw [hadd, List.nodup_append]
    refine ⟨h, by simp, ?_⟩
    rintro m hm _ hlast rfl
    exact hn (List.mem_singleton.mp hlast ▸ hm)

private theorem nodup_addTargets {seen : List Ident} (h : seen.Nodup) (ns : List Ident) :
    (addTargets seen ns).Nodup := by
  induction ns generalizing seen with
  | nil => exact h
  | cons n ns ih => exact ih (nodup_addTarget h n)

/-- The targets of two bodies in a row. -/
private theorem blockTargets_append (body more : List Stmt) (seen : List Ident) :
    blockTargets (body ++ more) seen = blockTargets more (blockTargets body seen) := by
  induction body generalizing seen with
  | nil => rfl
  | cons st body ih => rw [List.cons_append, blockTargets, blockTargets, ih]

/-! ### What host code does to signals -/

/-- What a host statement does to a signal, which is known by its proxy. -/
inductive Effect where
  | write (proxy : HostExpr)
  | invalidate (proxy : HostExpr)

/-- The signal that is written. -/
def Effect.written? : Effect → Option HostExpr
  | .write p => some p
  | .invalidate _ => none

/-- The signal that is made invalid. -/
def Effect.invalidated? : Effect → Option HostExpr
  | .write _ => none
  | .invalidate p => some p

namespace HostStmt

mutual

/-- What a host statement may do to signals, at any depth, in the order of the text. -/
def effects : HostStmt → List Effect
  | .write p _ => [.write p]
  | .writeAt p _ _ => [.write p]
  | .writeSlice p _ _ _ => [.write p]
  | .writeInvalid p => [.invalidate p]
  | .matchCond _ onTrue onFalse onInvalid =>
    effectsAll onTrue ++ effectsAll onFalse ++ effectsAll onInvalid
  | .select _ onInvalid arms otherwise =>
    effectsAll onInvalid ++ effectsArms arms ++ effectsOption otherwise

/-- The same of statements in order. -/
def effectsAll : List HostStmt → List Effect
  | [] => []
  | first :: rest => first.effects ++ effectsAll rest

/-- The same of the arms of a selection. -/
def effectsArms : List HostArm → List Effect
  | [] => []
  | ⟨_, body⟩ :: rest => effectsAll body ++ effectsArms rest

/-- The same of a body that may be absent. -/
def effectsOption : Option (List HostStmt) → List Effect
  | none => []
  | some body => effectsAll body

end

/-- The proxies on which the program has statements that write, one for each statement. -/
def written (prog : List HostStmt) : List HostExpr := (effectsAll prog).filterMap Effect.written?

/-- The proxies on which it has statements that make the signal invalid. -/
def invalidated (prog : List HostStmt) : List HostExpr :=
  (effectsAll prog).filterMap Effect.invalidated?

/-- The effects of two programs in a row. -/
theorem effectsAll_append (p q : List HostStmt) :
    effectsAll (p ++ q) = effectsAll p ++ effectsAll q := by
  induction p with
  | nil => rfl
  | cons st p ih => rw [List.cons_append, effectsAll, ih, effectsAll, List.append_assoc]

/-- The effects of a program of one statement. -/
theorem effectsAll_singleton (st : HostStmt) : effectsAll [st] = st.effects := by
  simp [effectsAll]

/-- The effects of a program that may be missing. -/
private theorem effectsAll_getD (body : Option (List HostStmt)) :
    effectsAll (body.getD []) = effectsOption body := by
  cases body <;> rfl

end HostStmt

open HostStmt

/-! ### From statements to effects -/

/-- **The effects are accounted for**: what is written are the signals of the first list, in order,
and what is made invalid are signals of the second. -/
structure Accounts (s : Site) (writes invalid : List Ident) (effects : List Effect) : Prop where
  written : writes.map s.proxyOf = (effects.filterMap Effect.written?).map .ok
  invalidated : ∀ p ∈ effects.filterMap Effect.invalidated?, ∃ n ∈ invalid, s.proxyOf n = .ok p

section

variable {s : Site}

/-- Effects that account for two lists of writes. -/
theorem Accounts.append {ns ms invalid : List Ident} {front back : List Effect}
    (hfront : Accounts s ns invalid front) (hback : Accounts s ms invalid back) :
    Accounts s (ns ++ ms) invalid (front ++ back) where
  written := by
    rw [List.map_append, List.filterMap_append, List.map_append, hfront.written, hback.written]
  invalidated := by
    rw [List.filterMap_append]
    exact List.forall_mem_append.mpr ⟨hfront.invalidated, hback.invalidated⟩

/-- More signals may be invalidated. -/
theorem Accounts.mono {ns invalid more : List Ident} {effects : List Effect}
    (h : Accounts s ns invalid effects) (hmore : invalid ⊆ more) : Accounts s ns more effects where
  written := h.written
  invalidated p hp := by
    obtain ⟨n, hn, hproxy⟩ := h.invalidated p hp
    exact ⟨n, hmore hn, hproxy⟩

/-- Parts that are each accounted for. -/
theorem Accounts.join {ns ms : List Ident} {front back : List Effect}
    (hfront : Accounts s ns ns front) (hback : Accounts s ms ms back) :
    Accounts s (ns ++ ms) (ns ++ ms) (front ++ back) :=
  (hfront.mono (List.subset_append_left ns ms)).append
    (hback.mono (List.subset_append_right ns ms))

/-- No effects account for no writes. -/
theorem accounts_nil (invalid : List Ident) : Accounts s [] invalid [] := ⟨rfl, by simp⟩

/-- One assignment. -/
theorem accounts_write {n : Ident} {p : HostExpr} (hp : s.proxyOf n = .ok p) :
    Accounts s [n] [n] [.write p] :=
  ⟨by simp [hp, Effect.written?], by simp [Effect.invalidated?]⟩

/-- Invalidations write nothing. -/
theorem Invalidates.accounts {ns : List Ident} {prog : List HostStmt} (h : Invalidates s ns prog) :
    Accounts s [] ns (effectsAll prog) := by
  induction h with
  | nil => exact accounts_nil []
  | @cons n p ns prog hp _ ih =>
      have hfirst : Accounts s [] (n :: ns) [.invalidate p] :=
        ⟨rfl, by simpa [Effect.invalidated?] using .inl hp⟩
      exact hfirst.append (ih.mono (List.subset_cons_self n ns))

/-- Signals that are written may be invalidated besides. -/
theorem Accounts.withInvalidations {ns targets : List Ident} {effects : List Effect}
    {prog : List HostStmt} (h : Accounts s ns ns effects) (hprog : Invalidates s targets prog)
    (htargets : targets ⊆ ns) : Accounts s ns ns (effects ++ effectsAll prog) := by
  have hall := h.append (hprog.accounts.mono htargets)
  rwa [List.append_nil] at hall

mutual

/-- **A host program that mirrors a statement** writes what the statement writes. -/
theorem StmtMirrors.accounts : ∀ {st : Stmt} {prog : List HostStmt}, StmtMirrors s st prog →
    Accounts s st.writes st.writes (effectsAll prog)
  | _, _, .write hp _ => accounts_write hp
  | _, _, .writeAt hp _ _ => accounts_write hp
  | _, _, .writeSlice hp _ _ _ => accounts_write hp
  | _, _, .ifElse hbranches => by
      rw [effectsAll_singleton, Stmt.writes]
      exact hbranches.accounts
  | _, _, .case _ hinvalid harms hdefault => by
      rw [caseTargets_eq] at hinvalid
      have hinvalid := hinvalid.accounts.mono fun n hn => List.mem_eraseDups.mp hn
      rw [effectsAll_singleton, effects, Stmt.writes, List.append_assoc]
      exact hinvalid.append (harms.accounts.join hdefault.accounts)
  | _, _, .block hbody => hbody.accounts
  | _, _, .null => accounts_nil []

/-- The effects of a program account for what the body writes. -/
theorem BlockMirrors.accounts : ∀ {body : List Stmt} {prog : List HostStmt},
    BlockMirrors s body prog → Accounts s (blockWrites body) (blockWrites body) (effectsAll prog)
  | _, _, .nil => accounts_nil []
  | _, _, .cons hfirst hrest => by
      rw [effectsAll_append, blockWrites]
      exact hfirst.accounts.join hrest.accounts

/-- The effects of a program that may be missing account for what the body writes. -/
theorem OptionMirrors.accounts : ∀ {body : Option (List Stmt)} {prog : Option (List HostStmt)},
    OptionMirrors s body prog →
      Accounts s (optionWrites body) (optionWrites body) (effectsOption prog)
  | _, _, .none => accounts_nil []
  | _, _, .some hbody => hbody.accounts

/-- The effects of a match account for what the branches write. -/
theorem BranchesMirror.accounts : ∀ {elseBody : Option (List Stmt)} {branches : List IfBranch}
    {st : HostStmt}, BranchesMirror s elseBody branches st →
      Accounts s (branchWrites branches ++ optionWrites elseBody)
        (branchWrites branches ++ optionWrites elseBody) st.effects
  | _, _, _, .last _ hbody helse hinvalid => by
      rw [effects, effectsAll_getD, branchWrites, branchWrites, List.append_nil]
      exact (hbody.accounts.join helse.accounts).withInvalidations hinvalid fun n hn => by
        simpa [ifTargets_eq, branchWrites] using hn
  | _, _, _, .more _ hbody hrest hinvalid => by
      rw [effects, effectsAll_singleton, branchWrites, List.append_assoc]
      exact (hbody.accounts.join hrest.accounts).withInvalidations hinvalid fun n hn => by
        simpa [ifTargets_eq, branchWrites] using hn

/-- The effects of a chain of tests account for what the arms write. -/
theorem ArmsMirror.accounts : ∀ {arms : List CaseArm} {hostArms : List HostArm},
    ArmsMirror s arms hostArms → Accounts s (armWrites arms) (armWrites arms) (effectsArms hostArms)
  | _, _, .nil => accounts_nil []
  | _, _, .cons _ hbody hrest => hbody.accounts.join hrest.accounts

end

end

/-- The values of a list of results. -/
theorem Except.mem_iff_of_map_eq {ε α β : Type} {f : α → Except ε β} {xs : List α} {ys : List β}
    (h : xs.map f = ys.map .ok) (y : β) : y ∈ ys ↔ ∃ x ∈ xs, f x = .ok y := by
  have hmem : y ∈ ys ↔ (Except.ok y : Except ε β) ∈ ys.map .ok := by simp
  rw [hmem, ← h, List.mem_map]

/-- The proxies of the targets are the proxies that are written. -/
theorem Accounts.proxies {s : Site} {ns targets : List Ident} {effects : List Effect}
    (h : Accounts s ns ns effects) (htargets : ∀ n, n ∈ targets ↔ n ∈ ns) :
    ∃ proxies, s.proxiesOf targets = .ok proxies ∧
      (∀ p, p ∈ effects.filterMap Effect.written? ↔ p ∈ proxies) ∧
      ∀ p ∈ effects.filterMap Effect.invalidated?, p ∈ proxies := by
  have hwritten := Except.mem_iff_of_map_eq h.written
  obtain ⟨proxies, hproxies⟩ : Succeeds (s.proxiesOf targets) := by
    refine succeeds_mapM.mpr fun n hn => ?_
    have hmem : s.proxyOf n ∈ ns.map s.proxyOf := List.mem_map_of_mem ((htargets n).mp hn)
    rw [h.written] at hmem
    obtain ⟨p, -, hp⟩ := List.mem_map.mp hmem
    exact ⟨p, hp.symm⟩
  have hmem := Except.mem_iff_of_map_eq (Except.mapM_eq_ok_iff.mp hproxies)
  simp only [htargets] at hmem
  refine ⟨proxies, hproxies, fun p => (hwritten p).trans (hmem p).symm, fun p hp => ?_⟩
  exact (hmem p).mpr (h.invalidated p hp)

/-- **Collected targets are exactly the written signals.**  Collecting keeps what was seen before
and adds the roots of all assignments that were not seen, each at its first occurrence; collecting
once more adds nothing, and a sequence is collected part by part.  In the text of a body that is
written, the signals with statements that write them are those that are collected from it, and
statements that make a signal invalid are on these only. -/
theorem targets_are_written (body : List Stmt) :
    (∀ seen, ∃ added, blockTargets body seen = seen ++ added ∧
      added = ((blockWrites body).filter (· ∉ seen)).eraseDups ∧
      added.Nodup ∧ (∀ n ∈ added, n ∉ seen) ∧
      blockTargets body (seen ++ added) = seen ++ added ∧
      ∀ more, blockTargets (body ++ more) seen = blockTargets more (seen ++ added)) ∧
    ∀ (s : Site) (session : Session), (session.run (s.block body)).result = .ok () →
      ∃ text prog proxies,
        (session.run (s.block body)).session.text = session.text ++ text ∧
        HostStmt.read text.toList = some prog ∧
        s.proxiesOf (blockTargets body []) = .ok proxies ∧
        (∀ p, p ∈ HostStmt.written prog ↔ p ∈ proxies) ∧
        ∀ p ∈ HostStmt.invalidated prog, p ∈ proxies := by
  constructor
  · intro seen
    have hadded : blockTargets body seen =
        seen ++ ((blockWrites body).filter (· ∉ seen)).eraseDups := by
      rw [blockTargets_eq, addTargets_eq]
    refine ⟨_, hadded, rfl, ?_, ?_, ?_, ?_⟩
    · rw [← addTargets_nil]
      exact nodup_addTargets List.nodup_nil _
    · intro n hn
      have hfilter := List.mem_eraseDups.mp hn
      simpa using (List.mem_filter.mp hfilter).2
    · rw [← hadded, blockTargets_eq, blockTargets_eq]
      exact addTargets_of_subset fun n hn => mem_addTargets.mpr (.inr hn)
    · intro more
      rw [blockTargets_append, hadded]
  · intro s session h
    obtain ⟨houtcome, htext⟩ := Session.run_ok h
    obtain ⟨prog, hemits, hmirrors⟩ :=
      Site.block_emits body _ (Script.yields_of_outcome houtcome)
    have htargets : ∀ n, n ∈ blockTargets body [] ↔ n ∈ blockWrites body := fun n => by
      rw [blockTargets_eq, mem_addTargets]
      simp
    obtain ⟨proxies, hproxies, hwritten, hinvalidated⟩ := hmirrors.accounts.proxies htargets
    refine ⟨_, prog, proxies, htext, ?_, hproxies, hwritten, hinvalidated⟩
    rw [String.toList_ofList]
    exact hemits.read _

/-- A signal that is written in a branch and under one index in an arm, begun one level in. -/
theorem targets_are_written_nested :
    let s : Site :=
      ⟨⟨⟨["en", "y", "z"]⟩, "m"⟩, ⟨[(⟨0⟩, .proxy), (⟨1⟩, .proxy), (⟨2⟩, .proxy)]⟩, .process,
        "process `p`"⟩
    let body : List Stmt :=
      [.ifElse [⟨.name ⟨0⟩, [.assign (.name ⟨2⟩) (.literal (.bool true))]⟩]
        (some [.case (.name ⟨1⟩)
          [⟨[.literal (.int 1)],
            [.assign (.index (.name ⟨2⟩) (.literal (.int 0))) (.name ⟨0⟩), .block [.null]]⟩]
          (some [.assign (.name ⟨1⟩) (.name ⟨0⟩)])])]
    let session : Session := ⟨⟨⟨"", none⟩, 1⟩, 0, false⟩
    (session.run (s.block body)).result = .ok () ∧ blockTargets body [] = [⟨2⟩, ⟨1⟩] ∧
      ∃ text prog proxies,
        (session.run (s.block body)).session.text = session.text ++ text ∧
        HostStmt.read text.toList = some prog ∧
        s.proxiesOf (blockTargets body []) = .ok proxies ∧
        (∀ p, p ∈ HostStmt.written prog ↔ p ∈ proxies) ∧
        ∀ p ∈ HostStmt.invalidated prog, p ∈ proxies := by
  intro s body session
  have houtcome : (s.block body).outcome = .ok () := by
    simp [s, body, Site.block, Site.stmt, Site.branches, Site.optionBlock, Site.falseArm,
      Site.arms, Site.defaultArm, Site.warnRepeated_outcome]
    rfl
  have hresult : (session.run (s.block body)).result = .ok () := by
    rw [Session.run_unlimited rfl, houtcome]
  exact ⟨hresult, by decide, (targets_are_written body).2 s session hresult⟩

end HdlSim
