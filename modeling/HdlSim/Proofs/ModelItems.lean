import HdlSim.Proofs.ModelTokens
import HdlSim.Proofs.Registration

/-!
# The items of a model

The code of a model consists of two structures, the block with the functions for types and the
constructor, the block of what the simulator calls, and the block of the functions of processes
(`HostModel`).  The names in it are those of the module, in the order of the source (`Model.host`).

The code has the tokens of these items (`Model.says_code`), so they are what is read from its text
(`Model.read_code`).
-/

namespace HdlSim

open Text Script HostExpr

/-! ### What scripts say -/

/-- What code says is put together from what its parts say. -/
structure Piecewise {ι : Type} (R : List ι → List Token → Prop) : Prop where
  nil : R [] []
  append : ∀ {is js ts us}, R is ts → R js us → R (is ++ js) (ts ++ us)

namespace Script

variable {ι α β : Type} {R : List ι → List Token → Prop} {is js : List ι}

/-- If the script succeeds, this is what its code says. -/
def Says (R : List ι → List Token → Prop) (is : List ι) (s : Script α) : Prop :=
  ∀ a, s.outcome = .ok a → R is (stepTokens s.steps)

/-- A script says any list that is the same. -/
theorem Says.congr {s : Script α} (h : Says R is s) (heq : is = js) : Says R js s := heq ▸ h

/-- A command says what the tokens of its line say. -/
theorem says_write {command : Command Line} (h : R is command.written.tokens) :
    Says R is (step (.write command)) := by
  intro _ _
  have htokens : stepTokens [.write command] = command.written.tokens := by simp
  rw [step, htokens]
  exact h

/-- A line says what its tokens say. -/
theorem says_line {l : Line} (h : R is l.tokens) : Says R is (line l) := says_write h

/-- A line that begins a block says what its tokens say. -/
theorem says_enter {l : Line} (h : R is l.tokens) : Says R is (enter l) := says_write h

/-- A line that ends a block says what its tokens say. -/
theorem says_leaveWith {l : Line} (h : R is l.tokens) : Says R is (leaveWith l) := says_write h

/-- The end of a block says what a closing brace says. -/
theorem says_leave (h : R is Line.close.tokens) : Says R is leave := says_write h

/-- A computation in front says nothing. -/
theorem says_lift {x : Except Failure α} {f : α → Script β}
    (hf : ∀ a, x = .ok a → Says R is (f a)) : Says R is ((liftM x : Script α) >>= f) := by
  intro b hb
  cases x with
  | error failure => cases hb
  | ok a => exact hf a rfl b hb

/-- A script that fails need not say anything. -/
theorem says_fail (failure : Failure) : Says R is (fail failure : Script α) := fun _ h => nomatch h

/-- A block says what its line, its body and the closing brace say together. -/
theorem says_enclosed {l : Line} {body : Script α} (h : ∀ a, body.outcome = .ok a →
    R is (l.tokens ++ (stepTokens body.steps ++ [Token.sign '\x7d']))) :
    Says R is (enclosed l body) := by
  obtain ⟨steps, outcome⟩ := body
  intro a ha
  cases outcome with
  | error failure => cases ha
  | ok b =>
      have hsteps : (enclosed l ⟨steps, .ok b⟩).steps =
          .write (.enter l) :: (steps ++ [Step.write (.leave .close)]) := rfl
      rw [hsteps, stepTokens_write, stepTokens_append]
      exact h b rfl

section

variable (hR : Piecewise R)

include hR

/-- Two scripts in a row say what both say. -/
theorem says_bind {s : Script α} {f : α → Script β} (hs : Says R is s)
    (hf : ∀ a, s.outcome = .ok a → Says R js (f a)) : Says R (is ++ js) (s >>= f) := by
  obtain ⟨steps, outcome⟩ := s
  intro b hb
  cases outcome with
  | error failure => cases hb
  | ok a =>
      show R (is ++ js) (stepTokens (steps ++ (f a).steps))
      rw [stepTokens_append]
      exact hR.append (hs a rfl) (hf a rfl b hb)

/-- A first part that says nothing. -/
theorem says_after {s : Script α} {f : α → Script β} (hs : Says R [] s)
    (hf : ∀ a, s.outcome = .ok a → Says R js (f a)) : Says R js (s >>= f) :=
  says_bind hR hs hf

/-- A last part that says nothing. -/
theorem says_before {s : Script α} {f : α → Script β} (hs : Says R is s)
    (hf : ∀ a, s.outcome = .ok a → Says R [] (f a)) : Says R is (s >>= f) :=
  (says_bind hR hs hf).congr (List.append_nil is)

/-- A script that only returns says nothing. -/
theorem says_pure (a : α) : Says R [] (pure a : Script α) := fun _ _ => hR.nil

/-- An event says nothing in the text. -/
theorem says_log (event : Event) : Says R [] (log event) := fun _ _ => hR.nil

/-- An empty line says nothing. -/
theorem says_blank : Says R [] blank := fun _ _ => hR.nil

/-- A script for each member of a list says what each of them says. -/
theorem says_forEach {xs : List α} {f : α → Script Unit} {g : α → List ι}
    (h : ∀ x ∈ xs, Says R (g x) (f x)) : Says R (xs.flatMap g) (forEach xs f) := by
  induction xs with
  | nil => exact says_pure hR ()
  | cons x xs ih =>
      obtain ⟨hx, hxs⟩ := List.forall_mem_cons.mp h
      rw [List.flatMap_cons]
      exact says_bind hR hx fun _ _ => ih hxs

/-- Nothing said for any member of a list. -/
theorem says_forEach_nil {xs : List α} {f : α → Script Unit} (h : ∀ x ∈ xs, Says R [] (f x)) :
    Says R [] (forEach xs f) :=
  (says_forEach hR h).congr (by simp)

/-- Scripts for the members of a list that have values say what each of them says. -/
theorem says_mapM {xs : List α} {f : α → Script β} {g : α → List ι}
    (h : ∀ x ∈ xs, Says R (g x) (f x)) : Says R (xs.flatMap g) (xs.mapM f) := by
  induction xs with
  | nil =>
      rw [List.mapM_nil]
      exact says_pure hR []
  | cons x xs ih =>
      obtain ⟨hx, hxs⟩ := List.forall_mem_cons.mp h
      rw [List.mapM_cons, List.flatMap_cons]
      exact says_bind hR hx fun _ _ => says_before hR (ih hxs) fun _ _ => says_pure hR _

/-- One thing said for each member of a list. -/
theorem says_forEach_map {xs : List α} {f : α → Script Unit} {g : α → ι}
    (h : ∀ x ∈ xs, Says R [g x] (f x)) : Says R (xs.map g) (forEach xs f) :=
  (says_forEach hR h).congr List.map_eq_flatMap.symm

/-- Comments say nothing. -/
theorem says_doc (mark : CommentMark) (text : Option String) :
    Says R [] (Script.doc mark text) := by
  cases text with
  | none => exact says_pure hR ()
  | some text =>
      refine says_forEach_nil hR fun l hl => says_line ?_
      obtain ⟨comment, -, rfl⟩ := List.mem_map.mp hl
      exact hR.nil

end

end Script

/-- The tokens are those of these parts, each of which has the property. -/
def Consists {ι : Type} (tokens : ι → List Token) (P : ι → Prop) (is : List ι)
    (ts : List Token) : Prop :=
  is.flatMap tokens = ts ∧ ∀ i ∈ is, P i

/-- Tokens that consist of pieces can be put together. -/
theorem piecewise_consists {ι : Type} (tokens : ι → List Token) (P : ι → Prop) :
    Piecewise (Consists tokens P) where
  nil := ⟨rfl, by simp⟩
  append := by
    rintro is js ts us ⟨rfl, his⟩ ⟨rfl, hjs⟩
    exact ⟨List.flatMap_append, List.forall_mem_append.mpr ⟨his, hjs⟩⟩

/-- The tokens of one piece consist of it. -/
theorem consists_singleton {ι : Type} {tokens : ι → List Token} {P : ι → Prop} {i : ι}
    {ts : List Token} (htokens : tokens i = ts) (hi : P i) : Consists tokens P [i] ts := by
  subst htokens
  simpa [Consists] using hi

/-! ### Parts of a model -/

/-- The parts of a model, as they are found in its code. -/
structure HostModel where
  unit : HostName
  /-- The type of the bundle of proxies. -/
  io : HostName
  fields : List HostField
  proxies : List HostField
  /-- The functions for types. -/
  types : List HostFunction
  new : HostFunction
  /-- What the simulator calls. -/
  callbacks : List HostFunction
  processes : List HostFunction

/-- The items of a model.  If there are no processes there is no block for them. -/
def HostModel.items (h : HostModel) : List HostItem :=
  [.struct h.unit h.fields, .struct h.io h.proxies, .impl none h.unit (h.types ++ [h.new]),
    .impl (some (.plain "SimUnit")) h.unit h.callbacks] ++
    if h.processes = [] then [] else [.impl none h.unit h.processes]

/-- The code consists of these fields. -/
def HasFields : List HostField → List Token → Prop := Consists HostField.tokens HostField.Legible

/-- The code consists of these functions of a type. -/
def HasMethods : List HostFunction → List Token → Prop :=
  Consists (fun f => f.method.tokens) HostFunction.Legible

/-- The code consists of these functions of a trait. -/
def HasCallbacks : List HostFunction → List Token → Prop :=
  Consists (fun f => f.callback.tokens) HostFunction.Legible

/-- The code consists of these items. -/
def HasItems : List HostItem → List Token → Prop := Consists HostItem.tokens HostItem.Legible

theorem piecewise_fields : Piecewise HasFields := piecewise_consists _ _

theorem piecewise_methods : Piecewise HasMethods := piecewise_consists _ _

theorem piecewise_callbacks : Piecewise HasCallbacks := piecewise_consists _ _

theorem piecewise_items : Piecewise HasItems := piecewise_consists _ _

namespace Script

variable {α : Type} {body : Script α}

/-- The line of a field. -/
theorem says_field {name type : HostName} (hname : name.IsProper) (htype : type.IsProper) :
    Says HasFields [⟨name, type⟩] (line (.fieldDecl name type)) :=
  says_line (consists_singleton rfl ⟨hname, htype⟩)

/-- The block of a function. -/
theorem says_method {l : Line} {f : HostFunction} (hbody : f.body = stepTokens body.steps)
    (hl : l.tokens = f.method.head ++ [Token.sign '\x7b'])
    (hf : ∀ a, body.outcome = .ok a → f.Legible) : Says HasMethods [f] (enclosed l body) := by
  refine says_enclosed fun a ha => consists_singleton ?_ (hf a ha)
  rw [hl, ← hbody, List.append_assoc]
  rfl

/-- The block of a function that the simulator calls. -/
theorem says_callback {l : Line} {f : HostFunction} (hbody : f.body = stepTokens body.steps)
    (hl : l.tokens = f.callback.head ++ [Token.sign '\x7b'])
    (hf : ∀ a, body.outcome = .ok a → f.Legible) : Says HasCallbacks [f] (enclosed l body) := by
  refine says_enclosed fun a ha => consists_singleton ?_ (hf a ha)
  rw [hl, ← hbody, List.append_assoc]
  rfl

/-- The block of a structure with its fields. -/
theorem says_struct {name : HostName} {fs : List HostField} (hname : name.IsProper)
    (h : Says HasFields fs body) :
    Says HasItems [.struct name fs] (enclosed (.structDecl name) body) := by
  refine says_enclosed fun a ha => ?_
  obtain ⟨htokens, hfs⟩ := h a ha
  exact consists_singleton (by rw [← htokens]; rfl) ⟨hname, hfs⟩

/-- The block of the functions of a type. -/
theorem says_impl {unit : HostName} {fs : List HostFunction} (hunit : unit.IsProper)
    (h : Says HasMethods fs body) :
    Says HasItems [.impl none unit fs] (enclosed (.implBlock unit) body) := by
  refine says_enclosed fun a ha => ?_
  obtain ⟨htokens, hfs⟩ := h a ha
  refine consists_singleton ?_ ⟨by simp, hunit, hfs⟩
  rw [← htokens, ← List.flatMap_map]
  rfl

/-- The block of the functions that the simulator calls. -/
private theorem says_simUnitImpl {unit : HostName} {fs : List HostFunction} (hunit : unit.IsProper)
    (h : Says HasCallbacks fs body) :
    Says HasItems [.impl (some (.plain "SimUnit")) unit fs]
      (enclosed (.simUnitImpl unit) body) := by
  refine says_enclosed fun a ha => ?_
  obtain ⟨htokens, hfs⟩ := h a ha
  have htrait : (HostName.plain "SimUnit").IsProper := by decide
  refine consists_singleton ?_ ⟨by simpa using htrait, hunit, hfs⟩
  rw [← htokens, ← List.flatMap_map]
  rfl

end Script

/-- The host identifier for a name. -/
def NameTable.hostOf (names : NameTable) (n : Ident) : HostName := .escape (names.textOf n)

/-- The identifier of a name is read back. -/
theorem NameTable.isProper_hostOf (names : NameTable) (n : Ident) : (names.hostOf n).IsProper :=
  HostName.escape_isProper _

namespace Model

variable {m : Model}

-- An identifier is compared as a whole and never by how a name is escaped.
attribute [local irreducible] HostName.escape

/-- The fields of the model: what the simulator keeps in it, constants and sub-units. -/
def fields (m : Model) : List HostField :=
  ⟨.plain "model", .plain "SimModel"⟩ :: ⟨.plain "io", m.context.io⟩ ::
    ((m.constants.map fun d => ⟨m.context.names.hostOf d.name, .plain "HdlValue"⟩) ++
      m.body.instances.map fun i =>
        ⟨m.context.names.hostOf i.name, m.context.names.hostOf i.moduleName⟩)

/-- The fields of the bundle of proxies. -/
def proxyFields (m : Model) : List HostField :=
  m.signals.map fun d => ⟨m.context.names.hostOf d.name, .plain "SimProxy"⟩

/-- The function for a type. -/
def maker (m : Model) (t : TypeItem) : HostFunction where
  name := m.context.names.hostOf t.name
  params := []
  result := [.word "HdlType"]
  body :=
    match (m.site .static ("type `" ++ m.context.names.textOf t.name ++ "`")).typeItemValue t with
    | .ok value => value.tokens
    | .error _ => []

/-- The constructor. -/
def newFunction (m : Model) : HostFunction where
  name := .plain "new"
  params :=
    [.word "sim", .sign ':', .sign '&', .word "mut", .word "Simulator", .sign ',',
      .word "inst_name", .sign ':', .sign '&', .word "str"]
  result := [.word "Self"]
  body := stepTokens m.newBody.steps

/-- The function by which the simulator gets to what it keeps in the model. -/
def modelFunction : HostFunction where
  name := .plain "model"
  params := receiverTokens
  result := [.sign '&', .word "mut", .word "SimModel"]
  body := [.sign '&', .word "mut"] ++ memberTokens "model"

/-- The function that registers the parts of the model. -/
def initFunction (m : Model) : HostFunction where
  name := .plain "init_body"
  params := receiverTokens
  result := []
  body := stepTokens m.wiring.steps

/-- The function that runs a process by its number. -/
def runFunction (m : Model) : HostFunction where
  name := .plain "run_process"
  params := receiverTokens ++ [.sign ',', .word "index", .sign ':', .word "usize"]
  result := []
  body := stepTokens m.dispatcher.steps

/-- The function for a process. -/
def processMethod (m : Model) (p : ProcessDecl) : HostFunction where
  name := m.context.names.hostOf p.label
  params := receiverTokens
  result := []
  body := stepTokens ((m.site .process
    ("process `" ++ m.context.names.textOf p.label ++ "`")).block p.body).steps

/-- **The parts of a model.** -/
def host (m : Model) : HostModel where
  unit := m.context.unit
  io := m.context.io
  fields := m.fields
  proxies := m.proxyFields
  types := m.body.types.map m.maker
  new := m.newFunction
  callbacks := [modelFunction, m.initFunction, m.runFunction]
  processes := m.body.processes.map m.processMethod

/-! ### The code of a model -/

/-- Braces match in what a function does. -/
theorem balanced_body {α : Type} {body : Script α} {a : α}
    (hmade : Made (m.Takes true true true) 0 0 body) (hok : body.outcome = .ok a) :
    Balanced (stepTokens body.steps) :=
  balanced_of_framed (hmade.framed nofun) (hmade.each fun _ hc => hc.writes.braced) hok

private theorem says_fieldLines : Says HasFields m.fields m.fieldLines := by
  have hconstants : Says HasFields
      (m.constants.map fun d => ⟨m.context.names.hostOf d.name, .plain "HdlValue"⟩)
      (forEach m.constants fun d => do
        line (.fieldDecl (← m.context.host d.name) (.plain "HdlValue"))) := by
    refine says_forEach_map piecewise_fields fun d _ => says_lift fun host hhost => ?_
    obtain rfl := Context.host_ok hhost
    exact says_field (m.context.names.isProper_hostOf d.name) (by decide)
  have hunits : Says HasFields
      (m.body.instances.map fun i =>
        ⟨m.context.names.hostOf i.name, m.context.names.hostOf i.moduleName⟩)
      (forEach m.body.instances fun i => do
        let name ← m.context.host i.name
        let type ← m.context.host i.moduleName
        line (.fieldDecl name type)) := by
    refine says_forEach_map piecewise_fields fun i _ => says_lift fun host hhost =>
      says_lift fun type htype => ?_
    obtain rfl := Context.host_ok hhost
    obtain rfl := Context.host_ok htype
    exact says_field (m.context.names.isProper_hostOf i.name)
      (m.context.names.isProper_hostOf i.moduleName)
  unfold fieldLines
  exact says_bind piecewise_fields (says_field (by decide) (by decide)) fun _ _ =>
    says_bind piecewise_fields (says_field (by decide) m.context.isProper_io) fun _ _ =>
    says_bind piecewise_fields hconstants fun _ _ => hunits

private theorem says_proxyLines : Says HasFields m.proxyFields m.proxyLines :=
  says_forEach_map piecewise_fields fun d _ => says_lift fun host hhost => by
    obtain rfl := Context.host_ok hhost
    exact says_field (m.context.names.isProper_hostOf d.name) (by decide)

private theorem says_structures :
    Says HasItems [.struct m.context.unit m.fields, .struct m.context.io m.proxyFields]
      m.structures := by
  rw [structures_eq]
  exact says_after piecewise_items (says_doc piecewise_items _ _) fun _ _ =>
    says_bind piecewise_items (says_struct m.context.isProper_unit says_fieldLines) fun _ _ =>
    says_after piecewise_items (says_blank piecewise_items) fun _ _ =>
    says_before piecewise_items (says_struct m.context.isProper_io says_proxyLines) fun _ _ =>
    says_blank piecewise_items

private theorem says_typeFunction (t : TypeItem) :
    Says HasMethods [m.maker t] (m.typeFunction t) := by
  rw [typeFunction_eq]
  refine says_lift fun name hname => says_lift fun value hvalue => ?_
  refine says_after piecewise_methods (says_doc piecewise_methods _ _) fun _ _ =>
    says_lift fun host hhost => ?_
  obtain rfl := Context.name_ok hname
  obtain rfl := Context.host_ok hhost
  have hbody : (m.maker t).body = value.tokens := by
    simp only [maker, hvalue]
  refine says_before piecewise_methods (says_method ?_ rfl fun _ _ => ?_) fun _ _ =>
    says_blank piecewise_methods
  · rw [hbody]
    simp [line, step, Command.written, Line.tokens]
  · refine ⟨m.context.names.isProper_hostOf t.name, by simp [maker], by simp [maker, flat_nil], ?_⟩
    rw [hbody]
    exact (Site.inline_typeItemValue hvalue).flat.balanced

/-- The functions for the types, and the one that makes the model. -/
private theorem says_makers :
    Says HasMethods (m.body.types.map m.maker ++ [m.newFunction]) m.makers := by
  refine says_bind piecewise_methods (says_forEach_map piecewise_methods fun t _ =>
    says_typeFunction t) fun _ _ => says_method rfl rfl fun _ hok => ?_
  exact ⟨(by decide : (HostName.plain "new").IsProper), by simp [newFunction],
    by simp [newFunction, flat_nil], balanced_body made_newBody hok⟩

private theorem says_callbacks :
    Says HasCallbacks [modelFunction, m.initFunction, m.runFunction] m.callbacks := by
  have hmodel : Says HasCallbacks [modelFunction] (enclosed .modelFn (line .modelRef)) :=
    says_callback rfl rfl fun _ _ => ⟨by decide, by decide, by decide, by decide⟩
  have hinit : Says HasCallbacks [m.initFunction] (enclosed .initBodyFn m.wiring) :=
    says_callback rfl rfl fun _ hok => ⟨(by decide : (HostName.plain "init_body").IsProper),
      by simp [initFunction, receiverTokens], by simp [initFunction, receiverTokens, flat_nil],
      balanced_body made_wiring hok⟩
  have hrun : Says HasCallbacks [m.runFunction] (enclosed .runProcessFn m.dispatcher) :=
    says_callback rfl rfl fun _ hok => ⟨(by decide : (HostName.plain "run_process").IsProper),
      by simp [runFunction, receiverTokens], by simp [runFunction, receiverTokens, flat_nil],
      balanced_body made_dispatcher hok⟩
  unfold callbacks
  exact says_bind piecewise_callbacks hmodel fun _ _ =>
    says_after piecewise_callbacks (says_blank piecewise_callbacks) fun _ _ =>
    says_bind piecewise_callbacks hinit fun _ _ =>
    says_after piecewise_callbacks (says_blank piecewise_callbacks) fun _ _ =>
    says_before piecewise_callbacks hrun fun _ _ => says_pure piecewise_callbacks _

/-- The function for a process. -/
theorem says_processFunction (p : ProcessDecl) :
    Says HasMethods [m.processMethod p] (m.processFunction p) := by
  rw [processFunction_eq]
  refine says_lift fun label hlabel => ?_
  refine says_after piecewise_methods (says_doc piecewise_methods _ _) fun _ _ =>
    says_lift fun host hhost => ?_
  obtain rfl := Context.name_ok hlabel
  obtain rfl := Context.host_ok hhost
  refine says_before piecewise_methods (says_method rfl rfl fun _ hok => ?_) fun _ _ =>
    says_log piecewise_methods _
  refine ⟨m.context.names.isProper_hostOf p.label, ?_, ?_, ?_⟩
  · simp [processMethod, receiverTokens]
  · simp [processMethod, receiverTokens, flat_nil]
  · exact balanced_body ((Site.made_statements _).mono fun _ => Takes.of_statement) hok

private theorem says_processFunctions (ps : List ProcessDecl) :
    Says HasMethods (ps.map m.processMethod) (m.processFunctions ps) := by
  cases ps with
  | nil => exact says_pure piecewise_methods ()
  | cons first rest =>
      exact says_bind piecewise_methods (says_processFunction first) fun _ _ =>
        says_forEach_map piecewise_methods fun p _ =>
          says_after piecewise_methods (says_blank piecewise_methods) fun _ _ =>
          says_processFunction p

/-- The block of the functions for the processes. -/
private theorem says_processes :
    Says HasItems (if m.host.processes = [] then []
      else [.impl none m.context.unit m.host.processes]) m.processes := by
  have hnone : m.host.processes = [] ↔ m.body.processes = [] := List.map_eq_nil_iff
  rw [processes_eq]
  by_cases hprocesses : m.body.processes = []
  · rw [if_pos hprocesses, if_pos (hnone.mpr hprocesses)]
    exact says_pure piecewise_items ()
  · rw [if_neg hprocesses, if_neg (mt hnone.mp hprocesses)]
    exact says_after piecewise_items (says_blank piecewise_items) fun _ _ =>
      says_impl m.context.isProper_unit (says_processFunctions _)

/-- **The code of a model consists of its parts.** -/
theorem says_code : Says HasItems m.host.items m.code := by
  have hmakers : Says HasItems
      [.impl none m.context.unit (m.host.types ++ [m.host.new])] m.constructor := by
    rw [constructor_eq]
    exact says_before piecewise_items (says_impl m.context.isProper_unit says_makers) fun _ _ =>
      says_blank piecewise_items
  have hcallbacks : Says HasItems
      [.impl (some (.plain "SimUnit")) m.context.unit m.host.callbacks] m.simUnit := by
    rw [simUnit_eq]
    exact says_simUnitImpl m.context.isProper_unit says_callbacks
  have hparts : Says HasItems _ m.code :=
    says_bind piecewise_items says_structures fun _ _ =>
    says_bind piecewise_items hmakers fun _ _ => says_bind piecewise_items hcallbacks fun _ _ =>
    says_before piecewise_items says_processes fun _ _ => says_pure piecewise_items _
  exact hparts.congr rfl

/-- The code of a model has the tokens of its lines, whatever stands behind it. -/
theorem code_tokens_append (m : Model) (level : Nat) (cs : List Char) :
    codeTokens (rendered level m.code.steps ++ cs) =
      (codeTokens cs).map (stepTokens m.code.steps ++ ·) :=
  codeTokens_rendered (each_code.written fun _ => Writes.legible) level cs

/-- The code of a model has the tokens of its steps, at any level. -/
theorem code_tokens (m : Model) (level : Nat) :
    codeTokens (rendered level m.code.steps) = some (stepTokens m.code.steps) := by
  have hempty : codeTokens [] = some [] := rfl
  simpa [hempty] using m.code_tokens_append level []

/-- **What is read from the code of a model are its parts.** -/
theorem read_code {summary : Summary} (hok : m.code.outcome = .ok summary) (level : Nat) :
    HostItem.read (String.ofList (rendered level m.code.steps)) = some m.host.items := by
  obtain ⟨htokens, hlegible⟩ := says_code summary hok
  rw [HostItem.read, String.toList_ofList, code_tokens, Option.bind_some, ← htokens]
  exact HostItem.readTokens_tokens hlegible

end Model

/-! ### Emitting a module -/

namespace Script

variable {α β : Type} {texts more : List String}

/-- If the script succeeds, it writes these lines, all at the level of indentation that it finds. -/
def Lists (texts : List String) (s : Script α) : Prop :=
  ∀ a, s.outcome = .ok a → ∀ level back,
    rendered level (s.steps ++ back) = texts.flatMap (indented level) ++ rendered level back

/-- A script lists any texts that are the same. -/
theorem Lists.congr {s : Script α} (h : Lists texts s) (heq : texts = more) : Lists more s :=
  heq ▸ h

/-- Two scripts in a row list what both list. -/
theorem lists_bind {s : Script α} {f : α → Script β} (hs : Lists texts s)
    (hf : ∀ a, s.outcome = .ok a → Lists more (f a)) : Lists (texts ++ more) (s >>= f) := by
  obtain ⟨steps, outcome⟩ := s
  intro b hb level back
  cases outcome with
  | error failure => cases hb
  | ok a =>
      show rendered level (steps ++ (f a).steps ++ back) = _
      rw [List.append_assoc, hs a rfl, hf a rfl b hb, List.flatMap_append, List.append_assoc]

/-- A first part that writes nothing. -/
theorem lists_after {s : Script α} {f : α → Script β} (hs : Lists [] s)
    (hf : ∀ a, s.outcome = .ok a → Lists texts (f a)) : Lists texts (s >>= f) :=
  lists_bind hs hf

/-- A computation in front lists nothing. -/
theorem lists_lift {x : Except Failure α} {f : α → Script β}
    (hf : ∀ a, x = .ok a → Lists texts (f a)) : Lists texts ((liftM x : Script α) >>= f) := by
  intro b hb
  cases x with
  | error failure => cases hb
  | ok a => exact hf a rfl b hb

/-- A script that only returns lists nothing. -/
theorem lists_pure (a : α) : Lists [] (pure a : Script α) := fun _ _ _ _ => rfl

/-- A script that fails need not list anything. -/
private theorem lists_fail (failure : Failure) : Lists texts (fail failure : Script α) :=
  fun _ h => nomatch h

/-- An event lists nothing. -/
theorem lists_log (event : Event) : Lists [] (log event) := fun _ _ _ _ => rfl

/-- A mark lists nothing. -/
theorem lists_mark (m : Mark) : Lists [] (mark m) := fun _ _ _ _ => rfl

private theorem lists_line (l : Line) : Lists [l.text] (line l) := by
  intro _ _ level back
  rw [List.flatMap_singleton]
  rfl

/-- An empty line lists itself. -/
theorem lists_blank : Lists [""] blank := by
  intro _ _ level back
  rw [List.flatMap_singleton]
  rfl

/-- Lines list their texts. -/
theorem lists_lines (ls : List Line) : Lists (ls.map Line.text) (lines ls) := by
  induction ls with
  | nil => exact lists_pure ()
  | cons l ls ih => exact lists_bind (lists_line l) fun _ _ => ih

private theorem lists_verbatim (texts : List String) :
    Lists texts (lines (texts.map Line.verbatim)) := by
  refine (lists_lines _).congr ?_
  rw [List.map_map]
  exact List.map_id texts

/-- The text of a script behind lines. -/
theorem rendered_bind_of_lists {s : Script α} {f : α → Script β} {b : β} (hs : Lists texts s)
    (h : (s >>= f).outcome = .ok b) :
    ∃ a, s.outcome = .ok a ∧ (f a).outcome = .ok b ∧ ∀ level,
      rendered level (s >>= f).steps =
        texts.flatMap (indented level) ++ rendered level (f a).steps := by
  obtain ⟨steps, outcome⟩ := s
  cases outcome with
  | error failure => cases h
  | ok a => exact ⟨a, rfl, h, fun level => hs a rfl level (f a).steps⟩

end Script

/-- The lines that import the models of sub-modules, when each has a file of its own. -/
def importLines (settings : Settings) (modules : List HostName) : List String :=
  match settings.modulePath with
  | none => []
  | some path =>
    if modules = [] then [] else (modules.map fun n => (Line.useModule path n).text) ++ [""]

namespace Model

/-- The sub-modules of the model, each once. -/
def submodules (m : Model) : List HostName :=
  ((m.body.instances.map Instance.moduleName).map m.context.names.hostOf).eraseDups

private theorem lists_imports (m : Model) (settings : Settings) :
    Lists (importLines settings m.submodules) (m.imports settings) := by
  unfold imports
  cases hpath : settings.modulePath with
  | none =>
      simp only [importLines, hpath]
      exact lists_pure ()
  | some path =>
      refine lists_lift fun hosts hhosts => ?_
      have hsubmodules : hosts = m.submodules := by
        obtain ⟨all, hall, hdone⟩ := Except.bind_eq_ok_iff.mp hhosts
        obtain rfl := Except.pure_eq_ok_iff.mp hdone
        rw [Context.hosts_ok hall]
        rfl
      simp only [importLines, hpath, ← hsubmodules]
      cases hosts with
      | nil => exact lists_pure ()
      | cons host hosts =>
          refine lists_bind ((lists_lines _).congr ?_) fun _ _ => lists_blank
          simp

end Model

namespace Session

/-- The lines in front of the code of the next model: what divides it from the module before, the
preamble, and its imports. -/
def headLines (s : Session) (settings : Settings) (modules : List HostName) : List String :=
  (if s.modules = 0 then [] else [""]) ++
    ((if settings.sharedPreamble && !s.preambleShared then preamble ++ [""] else []) ++
      importLines settings modules)

/-- The text in front of the code of the next model. -/
def head (s : Session) (settings : Settings) (modules : List HostName) : String :=
  String.ofList ((s.headLines settings modules).flatMap (indented s.writer.level))

private theorem lists_separator (s : Session) :
    Lists (if s.modules = 0 then [] else [""]) s.separator := by
  unfold separator
  split
  · exact lists_pure ()
  · exact lists_blank

private theorem lists_preambleScript (s : Session) (settings : Settings) :
    Lists (if settings.sharedPreamble && !s.preambleShared then preamble ++ [""] else [])
      (s.preambleScript settings) := by
  unfold preambleScript
  split
  · refine lists_bind (lists_verbatim preamble) fun _ _ => ?_
    refine (lists_bind lists_blank fun _ _ => ?_).congr (List.append_nil _)
    split
    · exact lists_mark _
    · exact lists_pure ()
  · exact lists_pure ()

/-- What is written in front of the code of a model. -/
def heading (s : Session) (settings : Settings) (model : Model) : Script Unit := do
  s.separator
  Script.mark .counted
  s.preambleScript settings
  model.imports settings

/-- The lines in front of the code of a model. -/
private theorem lists_heading (s : Session) (settings : Settings) (model : Model) :
    Lists (s.headLines settings model.submodules) (s.heading settings model) :=
  lists_bind s.lists_separator fun _ _ => lists_after (lists_mark .counted) fun _ _ =>
    lists_bind (s.lists_preambleScript settings) fun _ _ => model.lists_imports settings

/-- A module is written as the heading and the code of its model. -/
theorem moduleScript_eq (s : Session) (settings : Settings) (c : Context) (m : Module) :
    s.moduleScript settings c m = (do
      let model ← Model.ofModule c m
      s.heading settings model
      model.code) := by
  simp [moduleScript, heading, Model.script_eq]

private theorem lists_ofModule (c : Context) (m : Module) : Lists [] (Model.ofModule c m) := by
  unfold Model.ofModule Body.sort
  refine lists_lift fun _ _ => lists_after ?_ fun body _ => lists_lift fun scope _ => lists_pure _
  split
  · exact lists_lift fun _ _ => lists_after (lists_log _) fun _ _ => lists_fail _
  · exact lists_after (lists_log _) fun _ _ => lists_pure _

end Session

/-- The sub-modules of a module, each once. -/
def Module.submodules (names : NameTable) (m : Module) : List HostName :=
  ((m.instances.map Instance.moduleName).map names.hostOf).eraseDups

/-- The model of a module of this name. -/
def Module.model (names : NameTable) (name : String) (m : Module) : Model :=
  ⟨⟨names, name⟩, m.doc, m.ports, Body.ofItems m.items, m.scope⟩

/-- **What is written of a module** is the head and the code of its model. -/
theorem Session.emit_code {names : NameTable} {settings : Settings} {session : Session} {m : Module}
    {summary : Summary} (h : (session.emit names settings m).result = .ok summary) :
    ∃ name, names.resolve? m.name = some name ∧
      (Model.ofModule ⟨names, name⟩ m).outcome = .ok (m.model names name) ∧
      (m.model names name).code.outcome = .ok summary ∧
      (session.emit names settings m).session.text =
        session.text ++ session.head settings (m.submodules names) ++
          String.ofList (rendered session.writer.level (m.model names name).code.steps) := by
  cases hname : names.resolve? m.name with
  | none =>
      unfold Session.emit at h
      simp [hname] at h
  | some name =>
      obtain ⟨hresult, hsession⟩ := emit_eq_run hname settings session
      rw [hresult] at h
      obtain ⟨houtcome, htext⟩ := run_ok h
      rw [moduleScript_eq] at houtcome
      obtain ⟨model, hmodel, hrest, hsteps⟩ :=
        rendered_bind_of_lists (lists_ofModule _ _) houtcome
      obtain ⟨-, -, hcode, hheading⟩ :=
        rendered_bind_of_lists (session.lists_heading settings model) hrest
      obtain rfl : model = m.model names name := Model.ofModule_ok hmodel
      refine ⟨name, rfl, hmodel, hcode, ?_⟩
      rw [hsession, htext, moduleScript_eq, hsteps, hheading, String.append_assoc, head,
        ← String.ofList_append]
      rfl

end HdlSim
