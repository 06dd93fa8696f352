import HdlSim.Proofs.Nesting
import HdlSim.Proofs.ModuleAcceptance

/-!
# Designs are made of modules

A session that writes one module after another adds the same text for a module as is written of it
alone, apart from the empty line and the preamble in front (`Session.emit_extends`), and the module
fails the way it does alone (`Session.emit_result`).  So everything that is known of a design is
known from its modules (`lowerDesign_composes`).
-/

namespace HdlSim

open Script

/-- The settings, without the preamble. -/
def Settings.bare (settings : Settings) : Settings := { settings with sharedPreamble := false }

/-- The text that is written of a module alone, without a preamble. -/
def bodyText (names : NameTable) (settings : Settings) (m : Module) : String :=
  (lowerModule names settings.bare m).session.text

/-- **The text of a design**, put together from those of its modules.  If all models share one file
the preamble stands at its beginning, otherwise it stands in front of each of them. -/
def designText (settings : Settings) (bodies : List String) : String :=
  let lead := if settings.sharedPreamble then preambleText ++ "\n" else ""
  match settings.modulePath with
  | none => lead ++ Text.joinWith "\n" bodies
  | some _ => Text.joinWith "\n" (bodies.map (lead ++ ·))

/-- The first text has no separator in front of it. -/
theorem Text.joinWith_cons (separator text : String) (rest : List String) :
    joinWith separator (text :: rest) =
      text ++ String.join (rest.map fun next => separator ++ next) := by
  induction rest generalizing text with
  | nil => simp [joinWith]
  | cons next rest ih =>
      rw [joinWith, ih, List.map_cons, String.join_cons]
      · simp only [String.append_assoc]
      · simp

/-- Only where sub-modules are found matters for the text of a model. -/
theorem Model.script_bare (m : Model) (settings : Settings) :
    m.script settings.bare = m.script settings := rfl

/-- Nothing is written while a model is made of a module. -/
theorem Model.ofModule_yields {c : Context} {m : Module} {model : Model} {steps : List Step}
    (h : (Model.ofModule c m).Yields steps model) : ∃ event, steps = [.log event] := by
  unfold ofModule at h
  obtain ⟨-, -, hsorted⟩ := yields_lift_bind_iff.mp h
  obtain ⟨body, front, back, hbody, hrest, rfl⟩ := yields_bind_iff.mp hsorted
  obtain ⟨scope, -, hpure⟩ := yields_lift_bind_iff.mp hrest
  obtain ⟨rfl, -⟩ := yields_pure_iff.mp hpure
  unfold Body.sort at hbody
  split at hbody
  · obtain ⟨name, -, hlog⟩ := yields_lift_bind_iff.mp hbody
    obtain ⟨_, hfail, -⟩ := yields_step_then_iff.mp hlog
    exact (yields_fail_iff.mp hfail).elim
  · obtain ⟨_, hdone, rfl⟩ := yields_step_then_iff.mp hbody
    obtain ⟨rfl, -⟩ := yields_pure_iff.mp hdone
    exact ⟨_, rfl⟩

namespace Session

/-- The text that stands in front of the next module. -/
def lead (s : Session) (settings : Settings) : String :=
  (if s.modules = 0 then "" else "\n") ++
    if settings.sharedPreamble && !s.preambleShared then preambleText ++ "\n" else ""

/-- The session with one more module in it. -/
def advance (s : Session) (settings : Settings) : Session :=
  { s with
    modules := s.modules + 1
    preambleShared :=
      s.preambleShared || settings.sharedPreamble && settings.modulePath.isNone }

private theorem extend_extend (s : Session) (text more : String) :
    (s.extend text).extend more = s.extend (text ++ more) := by
  unfold extend Session.text
  simp only [String.append_assoc]

/-- Nothing is added. -/
theorem extend_empty (s : Session) : s.extend "" = s := by
  unfold extend
  rw [String.append_empty]
  rfl

/-! ### One module -/

/-- The script for a module ends the same way in every session. -/
theorem moduleScript_outcome (s : Session) (settings : Settings) (c : Context) (m : Module) :
    (s.moduleScript settings c m).outcome =
      (Model.ofModule c m).outcome >>= fun model => (model.script settings).outcome := by
  obtain ⟨⟨⟩, hseparator⟩ := s.separator_succeeds
  obtain ⟨⟨⟩, hpreamble⟩ := s.preambleScript_succeeds settings
  unfold moduleScript
  simp only [outcome_bind, outcome_mark, hseparator, hpreamble]
  rfl

/-- Without a limit a module ends in a session as it does alone. -/
theorem emit_result {s : Session} (hlimit : s.writer.sink.limit = none) (names : NameTable)
    (settings : Settings) (m : Module) :
    (s.emit names settings m).result = (lowerModule names settings m).result := by
  unfold lowerModule emit
  cases names.resolve? m.name with
  | none => rfl
  | some name =>
      simp only [run_unlimited hlimit, run_unlimited (s := start none) rfl, moduleScript_outcome]

/-- The settings do not decide whether a module is written. -/
theorem lowerModule_bare_result (names : NameTable) (settings : Settings) (m : Module) :
    (lowerModule names settings.bare m).result = (lowerModule names settings m).result := by
  unfold lowerModule emit
  cases names.resolve? m.name with
  | none => rfl
  | some name =>
      simp only [run_unlimited (s := start none) rfl, moduleScript_outcome, Model.script_bare]

private theorem after_separator {s : Session} {steps : List Step}
    (h : s.separator.Yields steps ()) :
    s.after steps = s.extend (if s.modules = 0 then "" else "\n") := by
  unfold separator at h
  by_cases hfirst : s.modules = 0
  · rw [if_pos hfirst] at h ⊢
    obtain ⟨rfl, -⟩ := yields_pure_iff.mp h
    exact s.extend_empty.symm
  · rw [if_neg hfirst] at h ⊢
    obtain rfl := yields_blank_iff.mp h
    rfl

/-- At the outermost level there is no indentation. -/
private theorem indented_zero (text : String) : indented 0 text = (text ++ "\n").toList := by
  unfold indented
  by_cases hempty : text.isEmpty = true
  · obtain rfl : text = "" := by simpa using hempty
    rfl
  · rw [if_neg hempty]
    simp

/-- Lines at the outermost level are written as they are. -/
private theorem rendered_verbatim (texts : List String) :
    String.ofList (rendered 0 ((texts.map Line.verbatim).map fun l => .write (.line l))) =
      String.join (texts.map fun text => text ++ "\n") := by
  induction texts with
  | nil => rfl
  | cons text rest ih =>
      have hfirst : (Command.map Line.text (.line (.verbatim text))).chars 0 =
          (text ++ "\n").toList := indented_zero text
      rw [List.map_cons, List.map_cons, List.map_cons, rendered, String.ofList_append,
        String.join_cons, hfirst, String.ofList_toList]
      exact congrArg _ ih

/-- The preamble is added, and its mark is set if it is shared. -/
private theorem after_preambleScript {s t : Session} {settings : Settings} {steps : List Step}
    (hlevel : t.writer.level = 0) (hshared : t.preambleShared = s.preambleShared)
    (h : (s.preambleScript settings).Yields steps ()) :
    t.after steps = { t.extend
        (if settings.sharedPreamble && !s.preambleShared then preambleText ++ "\n" else "") with
      preambleShared :=
        s.preambleShared || settings.sharedPreamble && settings.modulePath.isNone } := by
  unfold preambleScript at h
  by_cases hneeded : (settings.sharedPreamble && !s.preambleShared) = true
  · rw [if_pos hneeded] at h ⊢
    obtain ⟨front, _, hlines, hafter, rfl⟩ := yields_then_iff.mp h
    obtain ⟨last, hlast, rfl⟩ := yields_step_then_iff.mp hafter
    have htext : t.after front = t.extend preambleText := by
      have hfront := congrArg Script.steps hlines
      have hsame := congrArg Script.steps (lines_yields (preamble.map Line.verbatim))
      have hextend := after_of_framed (s := t) (framed_lines _) (congrArg Script.outcome hlines)
      rw [hsame, hlevel, rendered_verbatim] at hextend
      rw [preambleText, ← hextend, ← hsame, hfront]
    have hblank : t.after (front ++ [.write .blank]) = t.extend (preambleText ++ "\n") := by
      rw [after_append, htext, ← extend_extend]
      rfl
    have hsplit : front ++ .write .blank :: last = (front ++ [.write .blank]) ++ last := by simp
    obtain ⟨hon, hoff⟩ : settings.sharedPreamble = true ∧ s.preambleShared = false := by
      simpa using hneeded
    rw [hsplit, after_append, hblank, hon, hoff]
    split at hlast
    · rename_i hnone
      obtain rfl := yields_mark_iff.mp hlast
      rw [hnone]
      rfl
    · rename_i hsome
      obtain ⟨rfl, -⟩ := yields_pure_iff.mp hlast
      have hkept : t.preambleShared = false := hshared.trans hoff
      rw [Bool.eq_false_iff.mpr hsome, after]
      cases t
      subst hkept
      rfl
  · rw [if_neg hneeded] at h ⊢
    obtain ⟨rfl, -⟩ := yields_pure_iff.mp h
    have hkept : (s.preambleShared || settings.sharedPreamble && settings.modulePath.isNone) =
        t.preambleShared := by
      rw [hshared]
      revert hneeded
      cases settings.sharedPreamble <;> cases s.preambleShared <;> simp
    rw [hkept, extend_empty]
    rfl

/-- **One module in a session.**  Its text is added behind an empty line and the preamble, as far as
they are needed. -/
theorem after_moduleScript {s : Session} {settings : Settings} {c : Context} {m : Module}
    {model : Model} {summary : Summary} (hlevel : s.writer.level = 0)
    (hmodel : (Model.ofModule c m).outcome = .ok model)
    (h : (s.moduleScript settings c m).outcome = .ok summary) :
    s.after (s.moduleScript settings c m).steps =
      (s.extend (s.lead settings ++
        String.ofList (rendered 0 (model.script settings).steps))).advance settings := by
  have hyields := yields_of_outcome h
  generalize (s.moduleScript settings c m).steps = steps at hyields ⊢
  unfold moduleScript at hyields
  obtain ⟨model', front, _, hfront, hafterModel, rfl⟩ := yields_bind_iff.mp hyields
  obtain rfl : model = model' := Except.ok.inj (hmodel.symm.trans (congrArg Script.outcome hfront))
  obtain ⟨blankSteps, _, hblank, hafterBlank, rfl⟩ := yields_then_iff.mp hafterModel
  obtain ⟨_, hafterMark, rfl⟩ := yields_step_then_iff.mp hafterBlank
  obtain ⟨preambleSteps, scriptSteps, hpreamble, hscript, rfl⟩ := yields_then_iff.mp hafterMark
  obtain ⟨event, rfl⟩ := Model.ofModule_yields hfront
  -- The steps are taken one group after another.
  have hcounted : s.after (blankSteps ++ [Step.mark .counted]) =
      (s.extend (if s.modules = 0 then "" else "\n")).remember .counted := by
    rw [after_append, after_separator hblank]
    rfl
  have hprepared := after_preambleScript (t := s.after (blankSteps ++ [Step.mark .counted]))
    (by rw [hcounted]; exact hlevel) (by rw [hcounted]; rfl) hpreamble
  have hmodelText := after_of_framed
    (s := (s.after (blankSteps ++ [Step.mark .counted])).after preambleSteps)
    (Model.framed_script (m := model) settings) (congrArg Script.outcome hscript)
  have hsteps :
      [Step.log event] ++ (blankSteps ++ .mark .counted :: (preambleSteps ++ scriptSteps)) =
      .log event :: ((blankSteps ++ [Step.mark .counted]) ++ (preambleSteps ++ scriptSteps)) := by
    simp
  have hlast : scriptSteps = (model.script settings).steps :=
    (congrArg Script.steps hscript).symm
  rw [hsteps, after, after_append, after_append, hlast, hmodelText, hprepared, hcounted]
  simp only [extend, remember, advance, lead, Session.text, hlevel, String.append_assoc]

/-- A module that is written adds its text, with what leads to it in front. -/
theorem emit_extends {s : Session} (hlimit : s.writer.sink.limit = none)
    (hlevel : s.writer.level = 0) {names : NameTable} {settings : Settings} {m : Module}
    {summary : Summary} (h : (s.emit names settings m).result = .ok summary) :
    (s.emit names settings m).session =
      (s.extend (s.lead settings ++ bodyText names settings m)).advance settings := by
  cases hname : names.resolve? m.name with
  | none =>
      unfold emit at h
      simp [hname] at h
  | some name =>
      have halone := h
      rw [emit_result hlimit, ← lowerModule_bare_result] at halone
      obtain ⟨hresult, hsession⟩ := emit_eq_run hname settings s
      obtain ⟨hresultAlone, hsessionAlone⟩ := emit_eq_run hname settings.bare (start none)
      rw [hresult, run_unlimited hlimit] at h
      rw [lowerModule, hresultAlone, run_unlimited rfl] at halone
      obtain ⟨model, hmodel, -⟩ :=
        Except.bind_eq_ok_iff.mp ((moduleScript_outcome _ _ _ _).symm.trans h)
      have hbody : bodyText names settings m =
          String.ofList (rendered 0 (model.script settings).steps) := by
        have hafter := after_moduleScript (s := start none) rfl hmodel halone
        rw [bodyText, lowerModule, hsessionAlone]
        show ((start none).perform _).1.text = _
        rw [perform_eq_after (perform_unlimited rfl _), hafter, Model.script_bare]
        simp [advance, extend, lead, Session.text, start, Writer.start, Settings.bare]
      rw [hsession, hbody, ← after_moduleScript hlevel hmodel h]
      exact perform_eq_after (perform_unlimited hlimit _)

/-! ### Modules one after another -/

/-- The modules of a design succeed and fail as they do alone. -/
theorem emitAll_result {s : Session} (hlimit : s.writer.sink.limit = none) (names : NameTable)
    (settings : Settings) (modules : List Module) :
    (s.emitAll names settings modules).result =
      modules.mapM fun m => (lowerModule names settings m).result := by
  induction modules generalizing s with
  | nil => rfl
  | cons m rest ih =>
      have hresult := emit_result hlimit names settings m
      have hnext := ih ((s.emit_limit names settings m).trans hlimit)
      rw [emitAll, List.mapM_cons, ← hresult]
      cases (s.emit names settings m).result with
      | error failure => rfl
      | ok summary =>
          simp only [hnext]
          cases rest.mapM fun m => (lowerModule names settings m).result <;> rfl

/-- What follows a module that fails makes no difference. -/
theorem emitAll_of_error {s : Session} (hlimit : s.writer.sink.limit = none) {names : NameTable}
    {settings : Settings} {before : List Module} {m : Module} {failure : Failure}
    (hbefore : ∀ b ∈ before, Succeeds (lowerModule names settings b).result)
    (hm : (lowerModule names settings m).result = .error failure) (after : List Module) :
    s.emitAll names settings (before ++ m :: after) = s.emitAll names settings (before ++ [m]) := by
  induction before generalizing s with
  | nil =>
      rw [← emit_result hlimit] at hm
      simp only [List.nil_append, emitAll, hm]
  | cons b before ih =>
      obtain ⟨⟨summary, hsummary⟩, hrest⟩ := List.forall_mem_cons.mp hbefore
      rw [← emit_result hlimit] at hsummary
      have hnext := ih ((s.emit_limit names settings b).trans hlimit) hrest
      simp only [List.cons_append, emitAll, hsummary, hnext]

/-- The modules at the front of a design are written as if there were no others. -/
theorem emitAll_append_isPrefix (s : Session) (names : NameTable) (settings : Settings)
    (before after : List Module) : (s.emitAll names settings before).session.text.toList <+:
      (s.emitAll names settings (before ++ after)).session.text.toList := by
  induction before generalizing s with
  | nil => exact s.emitAll_isPrefix names settings after
  | cons b before ih =>
      simp only [List.cons_append, emitAll]
      cases (s.emit names settings b).result with
      | error failure => exact List.prefix_rfl
      | ok summary => exact ih _

/-- A session that has written a module: what is left to do for the preamble is known from the
settings. -/
structure UnderWay (s : Session) (settings : Settings) : Prop where
  limit : s.writer.sink.limit = none
  level : s.writer.level = 0
  modules : s.modules ≠ 0
  shared : s.preambleShared = (settings.sharedPreamble && settings.modulePath.isNone)

/-- The text between two modules, apart from the empty line. -/
def between (settings : Settings) : String :=
  if settings.sharedPreamble && settings.modulePath.isSome then preambleText ++ "\n" else ""

/-- Behind the first module, every module is led to in the same way. -/
private theorem UnderWay.lead_eq {s : Session} {settings : Settings} (h : s.UnderWay settings) :
    s.lead settings = "\n" ++ between settings := by
  unfold lead between
  rw [if_neg h.modules, h.shared]
  cases settings.sharedPreamble <;> cases settings.modulePath <;> rfl

/-- A session stays under way. -/
theorem UnderWay.advance {s : Session} {settings : Settings} (h : s.UnderWay settings)
    (text : String) : ((s.extend text).advance settings).UnderWay settings := by
  refine ⟨h.limit, h.level, Nat.succ_ne_zero _, ?_⟩
  show (s.preambleShared || _) = _
  rw [h.shared, Bool.or_self]

/-- Each further module adds an empty line, its preamble if it has one of its own, and its text. -/
theorem emitAll_text {s : Session} {names : NameTable} {settings : Settings} {modules : List Module}
    (hs : s.UnderWay settings)
    (hmodules : ∀ m ∈ modules, Succeeds (lowerModule names settings m).result) :
    (s.emitAll names settings modules).session.text = s.text ++ String.join
      (modules.map fun m => "\n" ++ (between settings ++ bodyText names settings m)) := by
  induction modules generalizing s with
  | nil =>
      rw [List.map_nil, String.join_nil, String.append_empty]
      rfl
  | cons m rest ih =>
      obtain ⟨⟨summary, hsummary⟩, hrest⟩ := List.forall_mem_cons.mp hmodules
      rw [← emit_result hs.limit] at hsummary
      have hsession := emit_extends hs.limit hs.level hsummary
      have hnext := ih (s := (s.emit names settings m).session)
        (by rw [hsession]; exact hs.advance _) hrest
      simp only [emitAll, hsummary, hnext]
      rw [hsession, List.map_cons, String.join_cons, hs.lead_eq]
      simp only [Session.advance, extend, Session.text, String.append_assoc]

/-- The first module, and the others behind it. -/
theorem start_emitAll_text {names : NameTable} {settings : Settings} {m : Module}
    {rest : List Module}
    (hmodules : ∀ x ∈ m :: rest, Succeeds (lowerModule names settings x).result) :
    ((start none).emitAll names settings (m :: rest)).session.text =
      designText settings ((m :: rest).map (bodyText names settings)) := by
  obtain ⟨⟨summary, hsummary⟩, hrest⟩ := List.forall_mem_cons.mp hmodules
  have hsession := emit_extends (s := start none) rfl rfl hsummary
  have hunder : ((start none).emit names settings m).session.UnderWay settings := by
    rw [hsession]
    exact ⟨rfl, rfl, Nat.one_ne_zero, Bool.false_or _⟩
  have hnext := emitAll_text hunder hrest
  have hemit : ((start none).emit names settings m).result = .ok summary := hsummary
  have hlead : (start none).lead settings =
      if settings.sharedPreamble then preambleText ++ "\n" else "" := by
    unfold lead start
    cases settings.sharedPreamble <;> rfl
  simp only [emitAll, hemit, hnext]
  rw [hsession, hlead]
  simp only [Session.advance, extend, Session.text, start, Writer.start, designText]
  cases hpath : settings.modulePath with
  | none => simp [between, hpath, Text.joinWith_cons, String.append_assoc, Function.comp_def]
  | some path => simp [between, hpath, Text.joinWith_cons, String.append_assoc, Function.comp_def]

end Session

/-! ### Designs -/

/-- What is known of a design from its modules. -/
structure Composes (names : NameTable) (settings : Settings) (modules : List Module) : Prop where
  /-- A design succeeds exactly if each of its modules succeeds alone. -/
  succeeds : Succeeds (lowerDesign names settings none modules).result ↔
    ∀ m ∈ modules, Succeeds (lowerModule names settings m).result
  /-- Its summaries are those of its modules, in order. -/
  summaries : ∀ summaries, (lowerDesign names settings none modules).result = .ok summaries →
    modules.map (fun m => (lowerModule names settings m).result) = summaries.map .ok
  /-- Its text is made of theirs. -/
  text : Succeeds (lowerDesign names settings none modules).result →
    (lowerDesign names settings none modules).session.text =
      designText settings (modules.map (bodyText names settings))
  /-- A design fails the way its first module that fails does alone; what follows it makes no
  difference, and what comes before it stays. -/
  failure : ∀ before m after failure, modules = before ++ m :: after →
    (∀ b ∈ before, Succeeds (lowerModule names settings b).result) →
    (lowerModule names settings m).result = .error failure →
      (lowerDesign names settings none modules).result = .error failure ∧
      lowerDesign names settings none modules = lowerDesign names settings none (before ++ [m]) ∧
      (lowerDesign names settings none before).session.text.toList <+:
        (lowerDesign names settings none modules).session.text.toList
  /-- The same modules in another order have the same texts and summaries in that order. -/
  permuted : ∀ other summaries, modules.Perm other →
    (lowerDesign names settings none modules).result = .ok summaries →
      ∃ otherSummaries, (lowerDesign names settings none other).result = .ok otherSummaries ∧
        (lowerDesign names settings none other).session.text =
          designText settings (other.map (bodyText names settings)) ∧
        ((modules.map (bodyText names settings)).zip summaries).Perm
          ((other.map (bodyText names settings)).zip otherSummaries)

section

variable {names : NameTable} {settings : Settings}

/-- A design ends as its modules do one by one. -/
theorem lowerDesign_result_eq (names : NameTable) (settings : Settings) (modules : List Module) :
    (lowerDesign names settings none modules).result =
      modules.mapM fun m => (lowerModule names settings m).result :=
  (lowerDesign_result names settings none modules).trans
    (Session.emitAll_result rfl names settings modules)

/-- A design is written if and only if each of its modules is. -/
theorem lowerDesign_succeeds_iff {modules : List Module} :
    Succeeds (lowerDesign names settings none modules).result ↔
      ∀ m ∈ modules, Succeeds (lowerModule names settings m).result := by
  rw [lowerDesign_result_eq]
  exact succeeds_mapM

/-- The text of a design. -/
theorem lowerDesign_text {modules : List Module} (hne : modules ≠ [])
    (h : Succeeds (lowerDesign names settings none modules).result) :
    (lowerDesign names settings none modules).session.text =
      designText settings (modules.map (bodyText names settings)) := by
  obtain ⟨m, rest, rfl⟩ := List.exists_cons_of_ne_nil hne
  rw [lowerDesign_session]
  exact Session.start_emitAll_text (lowerDesign_succeeds_iff.mp h)

/-- The first failure ends a list of results. -/
theorem Except.mapM_of_error {ε α β : Type} {f : α → Except ε β} {before : List α} {x : α}
    {failure : ε} (hbefore : ∀ b ∈ before, Succeeds (f b)) (hx : f x = .error failure)
    (after : List α) : (before ++ x :: after).mapM f = .error failure := by
  induction before with
  | nil =>
      rw [List.nil_append, List.mapM_cons, hx]
      rfl
  | cons b before ih =>
      obtain ⟨⟨value, hvalue⟩, hrest⟩ := List.forall_mem_cons.mp hbefore
      rw [List.cons_append, List.mapM_cons, hvalue, ih hrest]
      rfl

/-- Behind a module that fails, nothing of the design is looked at. -/
private theorem lowerDesign_of_error {before : List Module} {m : Module} {failure : Failure}
    (hbefore : ∀ b ∈ before, Succeeds (lowerModule names settings b).result)
    (hm : (lowerModule names settings m).result = .error failure) (after : List Module) :
    lowerDesign names settings none (before ++ m :: after) =
      lowerDesign names settings none (before ++ [m]) := by
  unfold lowerDesign
  rw [Session.emitAll_of_error rfl hbefore hm after]

/-- The texts and summaries of modules, in pairs. -/
theorem zip_eq_filterMap {modules : List Module} {summaries : List Summary}
    (h : modules.map (fun m => (lowerModule names settings m).result) = summaries.map .ok) :
    (modules.map (bodyText names settings)).zip summaries = modules.filterMap fun m =>
      (lowerModule names settings m).result.toOption.map fun summary =>
        (bodyText names settings m, summary) := by
  induction modules generalizing summaries with
  | nil => rfl
  | cons m rest ih =>
      cases summaries with
      | nil => cases h
      | cons summary summaries =>
          obtain ⟨hm, hrest⟩ := List.cons.inj h
          have hsummary : (lowerModule names settings m).result = .ok summary := hm
          rw [List.map_cons, List.zip_cons_cons, ih hrest, List.filterMap_cons, hsummary]
          rfl

end

/-- **Designs are compositions.** -/
theorem lowerDesign_composes (names : NameTable) (settings : Settings) {modules : List Module}
    (hne : modules ≠ []) : Composes names settings modules where
  succeeds := lowerDesign_succeeds_iff
  summaries := by
    intro summaries h
    rw [lowerDesign_result_eq] at h
    exact Except.mapM_eq_ok_iff.mp h
  text := lowerDesign_text hne
  failure := by
    rintro before m after failure rfl hbefore hm
    refine ⟨?_, lowerDesign_of_error hbefore hm after, ?_⟩
    · rw [lowerDesign_result_eq]
      exact Except.mapM_of_error hbefore hm after
    · rw [lowerDesign_session, lowerDesign_session]
      exact Session.emitAll_append_isPrefix _ names settings before (m :: after)
  permuted := by
    intro other summaries hperm h
    have hall := lowerDesign_succeeds_iff.mp ⟨summaries, h⟩
    have hother : Succeeds (lowerDesign names settings none other).result :=
      lowerDesign_succeeds_iff.mpr fun m hm => hall m (hperm.mem_iff.mpr hm)
    obtain ⟨otherSummaries, hsummaries⟩ := hother
    have hotherNe : other ≠ [] := fun hnil => hne (List.perm_nil.mp (hnil ▸ hperm))
    refine ⟨otherSummaries, hsummaries, lowerDesign_text hotherNe ⟨_, hsummaries⟩, ?_⟩
    rw [lowerDesign_result_eq, Except.mapM_eq_ok_iff] at h hsummaries
    rw [zip_eq_filterMap h, zip_eq_filterMap hsummaries]
    exact hperm.filterMap _

/-- Two modules in one file, and in the other order. -/
theorem lowerDesign_composes_pair :
    let names : NameTable := ⟨["a", "b", "x"]⟩
    let first : Module :=
      { Module.empty ⟨0⟩ with ports := [.port ⟨2⟩ .input (.bits 1 false)] }
    let second : Module := Module.empty ⟨1⟩
    [first, second] ≠ [] ∧
      (lowerDesign names .standard none [second, first]).session.text =
        preambleText ++ "\n" ++ (bodyText names .standard second ++ "\n" ++
          bodyText names .standard first) := by
  intro names first second
  have hne : [first, second] ≠ [] := by simp
  have hcomposes := lowerDesign_composes names .standard hne
  have hfirst : (lowerModule names .standard first).result = .ok ⟨"a", ["x"], [], [], []⟩ := by
    rw [lowerModule, (Session.emit_eq_run rfl .standard (.start none)).1, Session.run_unlimited rfl]
    rfl
  have hsecond : (lowerModule names .standard second).result = .ok ⟨"b", [], [], [], []⟩ := by
    rw [lowerModule, (Session.emit_eq_run rfl .standard (.start none)).1, Session.run_unlimited rfl]
    rfl
  have hsucceeds : Succeeds (lowerDesign names .standard none [first, second]).result := by
    rw [hcomposes.succeeds]
    simp [hfirst, hsecond]
  obtain ⟨summaries, hsummaries⟩ := hsucceeds
  obtain ⟨-, -, htext, -⟩ :=
    hcomposes.permuted [second, first] summaries (List.Perm.swap second first []) hsummaries
  exact ⟨hne, htext⟩

end HdlSim
