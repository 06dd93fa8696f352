import HdlSim.Model
import HdlSim.Proofs.Blocks
import HdlSim.Proofs.Statements

/-!
# What a model is written with

The commands that the script of a model gives to the writer are listed here once, each with where
its names and values come from: `Site.Writes` for the statements of a process, and `Model.Writes`
for all the rest.  The parts of a model are gone through here once as well, to see which of them
have empty lines, registrations or reports among their steps (`Site.Takes`, `Model.Takes`), and that
all their blocks end.  What holds of every command on the list holds of every line of every model
(`Site.each_statements`, `Model.each_code`).
-/

namespace HdlSim

open Text Script

/-- The lines by which a simulator gets to know a model: what is registered, and how processes are
run. -/
def Line.registers : Line → Bool
  | .setInterfaces _ => true
  | .setProcesses _ => true
  | .setUnits _ => true
  | .setSensitivity _ _ => true
  | .setOutputs _ _ => true
  | .runProcessFn => true
  | .dispatch _ _ => true
  | _ => false

/-- The command writes a line that is neither empty nor one by which a simulator gets to know a
model. -/
def Command.isPlain : Command Line → Bool
  | .blank => false
  | command => !command.written.registers

/-- A plain command registers nothing. -/
theorem Command.registers_of_isPlain {c : Command Line} (h : c.isPlain = true) :
    c.written.registers = false := by
  cases c with
  | blank => rfl
  | _ => simpa [isPlain] using h

/-! ### Statements -/

namespace Site

/-- **The commands for statements.** -/
inductive Writes (s : Site) : Command Line → Prop
  | close : Writes s (.leave .close)
  | write {n : Ident} {e : Expr} {p v : HostExpr} (hp : s.proxyOf n = .ok p)
      (hv : s.value e = .ok v) : Writes s (.line (.write p v))
  | writeAt {n : Ident} {i e : Expr} {p k v : HostExpr} (hp : s.proxyOf n = .ok p)
      (hk : s.value i = .ok k) (hv : s.value e = .ok v) : Writes s (.line (.writeAt p k v))
  | writeSlice {n : Ident} {h l e : Expr} {p high low v : HostExpr} (hp : s.proxyOf n = .ok p)
      (hhigh : s.value h = .ok high) (hlow : s.value l = .ok low) (hv : s.value e = .ok v) :
      Writes s (.line (.writeSlice p high low v))
  | writeInvalid {n : Ident} {p : HostExpr} (hp : s.proxyOf n = .ok p) :
      Writes s (.line (.writeInvalid p))
  | matchCond {e : Expr} {v : HostExpr} (hv : s.value e = .ok v) :
      Writes s (.enter (.matchCond v))
  | condTrue : Writes s (.enter .condTrue)
  | condFalse : Writes s (.enter .condFalse)
  | condFalseEmpty : Writes s (.line .condFalseEmpty)
  | condInvalid : Writes s (.enter .condInvalid)
  | condInvalidEmpty : Writes s (.line .condInvalidEmpty)
  | bareBlock : Writes s (.enter .bareBlock)
  | letSelector {e : Expr} {v : HostExpr} (hv : s.value e = .ok v) :
      Writes s (.line (.letSelector v))
  | ifSelectorInvalid : Writes s (.enter .ifSelectorInvalid)
  | elseIfMatches {es : List Expr} {vs : List HostExpr} (hvs : s.values es = .ok vs) :
      Writes s (.turn (.elseIfMatches vs))
  | elseBlock : Writes s (.turn .elseBlock)

variable {s : Site}

/-- Statements are written with plain commands. -/
theorem Writes.isPlain {c : Command Line} (h : s.Writes c) : c.isPlain = true := by
  cases h <;> rfl

/-- An initial value is the value of an expression. -/
theorem exists_of_initValue {e : Option Expr} {init : Option HostExpr}
    (h : s.initValue e = .ok init) : ∀ v ∈ init, ∃ x, s.value x = .ok v := by
  intro v hinit
  cases e with
  | none =>
      obtain rfl := Except.pure_eq_ok_iff.mp h
      cases hinit
  | some x =>
      obtain ⟨value, hvalue, h⟩ := Except.bind_eq_ok_iff.mp h
      obtain rfl := Except.pure_eq_ok_iff.mp h
      obtain rfl := Option.some.inj hinit
      exact ⟨x, hvalue⟩

private theorem writes_assignLine {target value : Expr} {l : Line}
    (h : s.assignLine target value = .ok l) :
    s.Writes (.line l) := by
  obtain ⟨v, hv, hline⟩ := Except.bind_eq_ok_iff.mp h
  split at hline
  · obtain ⟨p, hp, hline⟩ := Except.bind_eq_ok_iff.mp hline
    obtain rfl := Except.pure_eq_ok_iff.mp hline
    exact .write hp hv
  · obtain ⟨p, hp, hline⟩ := Except.bind_eq_ok_iff.mp hline
    obtain ⟨k, hk, hline⟩ := Except.bind_eq_ok_iff.mp hline
    obtain rfl := Except.pure_eq_ok_iff.mp hline
    exact .writeAt hp hk hv
  · obtain ⟨p, hp, hline⟩ := Except.bind_eq_ok_iff.mp hline
    obtain ⟨high, hhigh, hline⟩ := Except.bind_eq_ok_iff.mp hline
    obtain ⟨low, hlow, hline⟩ := Except.bind_eq_ok_iff.mp hline
    obtain rfl := Except.pure_eq_ok_iff.mp hline
    exact .writeSlice hp hhigh hlow hv
  · simp at hline

private theorem writes_armLine {choices : List Expr} {l : Line} (h : s.armLine choices = .ok l) :
    s.Writes (.turn l) := by
  cases choices with
  | nil => simp [armLine] at h
  | cons c choices =>
      obtain ⟨vs, hvs, hline⟩ := Except.bind_eq_ok_iff.mp h
      obtain rfl := Except.pure_eq_ok_iff.mp hline
      exact .elseIfMatches hvs

/-- **The steps for statements**: the commands for statements, and a warning for every choice that
is repeated, if there are to be `reports`. -/
inductive Takes (s : Site) (reports : Bool) : Step → Prop
  | write {c : Command Line} (hc : s.Writes c) : Takes s reports (.write c)
  | warn (hreports : reports = true) :
      Takes s reports (.log (.duplicateChoice s.context.module s.object))

variable {reports : Bool} {n : Nat}

/-- Targets are invalidated by one line each. -/
theorem made_invalidate (ns : List Ident) : Made (s.Takes reports) n n (s.invalidate ns) :=
  made_forEach fun _ _ => made_lift fun _ hp => made_line (.write (.writeInvalid hp))

/-- The arm for a condition without a value. -/
theorem made_invalidArm (ns : List Ident) : Made (s.Takes reports) n n (s.invalidArm ns) := by
  unfold invalidArm
  split
  · exact made_line (.write .condInvalidEmpty)
  · exact made_block (.write .condInvalid) (made_invalidate ns) (.write .close)

/-- The arm for a condition that does not hold. -/
private theorem made_falseArm {next : Option (Script Unit)}
    (h : ∀ script ∈ next, Made (s.Takes reports) (n + 1) (n + 1) script) :
    Made (s.Takes reports) n n (falseArm next) := by
  cases next with
  | none => exact made_line (.write .condFalseEmpty)
  | some script => exact made_block (.write .condFalse) (h script rfl) (.write .close)

private theorem made_defaultArm {default : Option (Script Unit)}
    (h : ∀ script ∈ default, Made (s.Takes reports) (n + 1) (n + 1) script) :
    Made (s.Takes reports) (n + 1) (n + 1) (defaultArm default) := by
  cases default with
  | none => exact made_pure ()
  | some script => exact made_bind (made_turn (.write .elseBlock)) fun _ _ => h script rfl

/-- A body is made of its statements. -/
theorem made_block_of_forall {body : List Stmt}
    (h : ∀ st ∈ body, Made (s.Takes reports) n n (s.stmt st)) :
    Made (s.Takes reports) n n (s.block body) := by
  induction body with
  | nil => exact made_pure ()
  | cons st body ih =>
      obtain ⟨hst, hbody⟩ := List.forall_mem_cons.mp h
      rw [block]
      exact made_bind hst fun _ _ => ih hbody

/-- A body that may be missing is made of its statements. -/
theorem made_optionBlock {body : Option (List Stmt)}
    (h : ∀ b ∈ body, ∀ st ∈ b, Made (s.Takes reports) n n (s.stmt st)) :
    ∀ script ∈ s.optionBlock body, Made (s.Takes reports) n n script := by
  intro script hscript
  cases body with
  | none => simp [optionBlock] at hscript
  | some body =>
      obtain rfl : s.block body = script := by simpa [optionBlock] using hscript
      exact made_block_of_forall (h body rfl)

/-- Each further branch stands two blocks further in, so the branches are taken at all depths at
once. -/
theorem made_branches {elseTargets : List Ident → List Ident} {elseBody : Option (Script Unit)}
    {branches : List IfBranch}
    (hbodies : ∀ n, ∀ b ∈ branches, ∀ st ∈ b.body, Made (s.Takes reports) n n (s.stmt st))
    (helse : ∀ n, ∀ script ∈ elseBody, Made (s.Takes reports) n n script) :
    Made (s.Takes reports) n n (s.branches elseTargets elseBody branches) := by
  induction branches generalizing n with
  | nil => exact made_fail _
  | cons b rest ih =>
      obtain ⟨condition, body⟩ := b
      have hbody : Made (s.Takes reports) (n + 2) (n + 2) (s.block body) :=
        made_block_of_forall (hbodies (n + 2) _ List.mem_cons_self)
      have hrest : Made (s.Takes reports) (n + 2) (n + 2) (s.branches elseTargets elseBody rest) :=
        ih fun k b hb => hbodies k b (List.mem_cons_of_mem _ hb)
      have hfalse : ∀ script ∈ if rest.isEmpty then elseBody
          else some (s.branches elseTargets elseBody rest),
            Made (s.Takes reports) (n + 2) (n + 2) script := by
        intro script hscript
        split at hscript
        · exact helse (n + 2) script hscript
        · obtain rfl := Option.some.inj hscript
          exact hrest
      rw [Site.branches]
      exact made_lift fun c hc => made_bind (made_enter (.write (.matchCond hc))) fun _ _ =>
        made_bind (made_enter (.write .condTrue)) fun _ _ => made_bind hbody fun _ _ =>
        made_bind (made_leave (.write .close)) fun _ _ =>
        made_bind (made_falseArm hfalse) fun _ _ => made_bind (made_invalidArm _) fun _ _ =>
        made_leave (.write .close)

/-- Arms are made of their lines and their bodies. -/
private theorem made_arms {arms : List CaseArm}
    (hbodies : ∀ arm ∈ arms, ∀ st ∈ arm.body, Made (s.Takes reports) (n + 1) (n + 1) (s.stmt st)) :
    Made (s.Takes reports) (n + 1) (n + 1) (s.arms arms) := by
  induction arms with
  | nil => exact made_pure ()
  | cons arm rest ih =>
      obtain ⟨choices, body⟩ := arm
      obtain ⟨hbody, hrest⟩ := List.forall_mem_cons.mp hbodies
      rw [Site.arms]
      exact made_lift fun l hl => made_bind (made_turn (.write (writes_armLine hl))) fun _ _ =>
        made_bind (made_block_of_forall hbody) fun _ _ => ih hrest

/-- **One statement**, by induction on the statement. -/
private theorem made_stmt (st : Stmt) : Made (s.Takes true) n n (s.stmt st) := by
  induction st using Stmt.bodyInduction generalizing n with
  | assign target value =>
      rw [stmt]
      exact made_lift fun l hl => made_line (.write (writes_assignLine hl))
  | ifElse branches elseBody ihbodies ihelse =>
      rw [stmt]
      exact made_branches (fun _ b hb st hst => ihbodies b hb st hst)
        fun _ => made_optionBlock fun body hbody st hst => ihelse body hbody st hst
  | case selector arms default ihbodies ihdefault =>
      have hwarnings : Made (s.Takes true) n n (s.warnRepeated arms) :=
        made_forEach fun _ _ => made_log (.warn rfl)
      have harms : Made (s.Takes true) (n + 2) (n + 2) (s.arms arms) :=
        made_arms fun arm harm st hst => ihbodies arm harm st hst
      have hdefault : Made (s.Takes true) (n + 2) (n + 2) (defaultArm (s.optionBlock default)) :=
        made_defaultArm (made_optionBlock fun body hbody st hst => ihdefault body hbody st hst)
      rw [stmt]
      exact made_bind hwarnings fun _ _ => made_bind (made_enter (.write .bareBlock)) fun _ _ =>
        made_lift fun v hv => made_bind (made_line (.write (.letSelector hv))) fun _ _ =>
        made_bind (made_enter (.write .ifSelectorInvalid)) fun _ _ =>
        made_bind (made_invalidate _) fun _ _ => made_bind harms fun _ _ =>
        made_bind hdefault fun _ _ => made_bind (made_leave (.write .close)) fun _ _ =>
        made_leave (.write .close)
  | block body ih =>
      rw [stmt]
      exact made_block_of_forall fun st hst => ih st hst
  | null =>
      rw [stmt]
      exact made_pure ()

/-- **Statements** are written with the commands for statements. -/
theorem made_statements (body : List Stmt) : Made (s.Takes true) n n (s.block body) :=
  made_block_of_forall fun st _ => made_stmt st

/-- **Statements** are written with the commands for statements. -/
theorem each_statements (body : List Stmt) : Each s.Writes (s.block body) :=
  (made_statements (n := 0) body).each fun _ hst => by
    cases hst with
    | write hc => exact hc

/-- Statements end the blocks that they begin, and leave the session alone. -/
theorem framed_statements (body : List Stmt) : Framed n n (s.block body) :=
  (made_statements body).framed nofun

end Site

/-! ### The parts of a model -/

namespace Model

/-- The script of a model behind its imports. -/
def code (m : Model) : Script Summary := do
  m.structures
  m.constructor
  let summary ← m.simUnit
  m.processes
  return summary

/-- A model is written as its imports and its code. -/
theorem script_eq (m : Model) (settings : Settings) :
    m.script settings = m.imports settings >>= fun _ => m.code := rfl

/-- The fields of the structure of the model. -/
def fieldLines (m : Model) : Script Unit := do
  line (.fieldDecl (.plain "model") (.plain "SimModel"))
  line (.fieldDecl (.plain "io") m.context.io)
  forEach m.constants fun d => do
    line (.fieldDecl (← m.context.host d.name) (.plain "HdlValue"))
  forEach m.body.instances fun i => do
    let name ← m.context.host i.name
    let type ← m.context.host i.moduleName
    line (.fieldDecl name type)

/-- The fields of the structure of the proxies. -/
def proxyLines (m : Model) : Script Unit :=
  forEach m.signals fun d => do line (.fieldDecl (← m.context.host d.name) (.plain "SimProxy"))

/-- The two structures of a model. -/
theorem structures_eq (m : Model) : m.structures = (do
    Script.doc .doc m.doc
    enclosed (.structDecl m.context.unit) m.fieldLines
    blank
    enclosed (.structDecl m.context.io) m.proxyLines
    blank) := by
  simp [structures, enclosed, fieldLines, proxyLines]

/-- The function for a type of this name and value. -/
theorem typeFunction_eq (m : Model) (t : TypeItem) : m.typeFunction t = (do
    let name ← m.context.name t.name
    let value ← (m.site .static ("type `" ++ name ++ "`")).typeItemValue t
    Script.doc .doc t.doc
    let host ← m.context.host t.name
    enclosed (.typeFn host) (line (.result value))
    blank) := by
  simp [typeFunction, enclosed]

/-- What the constructor does. -/
def newBody (m : Model) : Script Unit := do
  line .letModel
  headed "ports" m.ports (m.declaration "port")
  headed "internal signals" m.body.vars fun d =>
    m.declaration (if d.isConst then "constant" else "signal") d
  headed "component instances" m.body.instances m.instanceLocal
  m.selfValue

/-- The functions for types and the constructor, without the block around them. -/
def makers (m : Model) : Script Unit := do
  forEach m.body.types m.typeFunction
  enclosed .newFn m.newBody

/-- The block with the functions that make a model and its types. -/
theorem constructor_eq (m : Model) : m.constructor = (do
    enclosed (.implBlock m.context.unit) m.makers
    blank) := by
  simp [constructor, makers, newBody, enclosed]

/-- If the code of a model is written, so are the functions that make it. -/
theorem outcome_makers {m : Model} {summary : Summary} (h : m.code.outcome = .ok summary) :
    m.makers.outcome = .ok () := by
  simp only [code, constructor_eq, outcome_bind, outcome_enclosed] at h
  obtain ⟨_, -, h⟩ := Except.bind_eq_ok_iff.mp h
  obtain ⟨_, hconstructor, -⟩ := Except.bind_eq_ok_iff.mp h
  obtain ⟨_, hmakers, -⟩ := Except.bind_eq_ok_iff.mp hconstructor
  exact hmakers

/-- What the function that registers the parts of the model does. -/
def wiring (m : Model) : Script Summary := do
  let c := m.context
  forEach m.body.instances m.connections
  let constants ← c.texts (m.constants.map Variable.name)
  let interfaces ← c.texts (m.signals.map Variable.name)
  let fields ← c.hosts (m.signals.map Variable.name)
  line (.setInterfaces (fields.map fun n => .method (.field .proxies n) "clone" []))
  line (.setProcesses (← c.texts (m.body.processes.map ProcessDecl.label)))
  let units ← c.texts (m.body.instances.map Instance.name)
  let unitFields ← c.hosts (m.body.instances.map Instance.name)
  line (.setUnits (unitFields.map fun n =>
    .method (.field (.field .self n) (.plain "model")) "clone" []))
  let processes ← m.body.processes.mapM m.registration
  forEach m.body.instances fun i => do line (.initUnit (← c.host i.name))
  return ⟨c.module, interfaces, constants, processes, units⟩

/-- What the function that runs a process by its number does. -/
def dispatcher (m : Model) : Script Unit :=
  enclosed .matchIndex do
    m.dispatch 0 m.body.processes
    line (.noProcess m.context.unit)

/-- What the simulator calls, without the block around it. -/
def callbacks (m : Model) : Script Summary := do
  enclosed .modelFn (line .modelRef)
  blank
  let summary ← enclosed .initBodyFn m.wiring
  blank
  enclosed .runProcessFn m.dispatcher
  return summary

/-- The block with the functions that the simulator calls. -/
theorem simUnit_eq (m : Model) :
    m.simUnit = enclosed (.simUnitImpl m.context.unit) m.callbacks := by
  simp [simUnit, initBody, callbacks, wiring, dispatcher, enclosed]

/-- The function for a process. -/
theorem processFunction_eq (m : Model) (p : ProcessDecl) : m.processFunction p = (do
    let label ← m.context.name p.label
    Script.doc .doc p.doc
    let host ← m.context.host p.label
    enclosed (.processFn host) ((m.site .process ("process `" ++ label ++ "`")).block p.body)
    log (.loweredProcess label p.body.length)) := by
  simp [processFunction, enclosed]

/-- The functions for processes, without the block around them. -/
def processFunctions (m : Model) : List ProcessDecl → Script Unit
  | [] => pure ()
  | first :: rest => do
    m.processFunction first
    forEach rest fun p => do
      blank
      m.processFunction p

/-- The block with the functions for the processes, if there are any. -/
theorem processes_eq (m : Model) : m.processes =
    if m.body.processes = [] then pure () else (do
      blank
      enclosed (.implBlock m.context.unit) (m.processFunctions m.body.processes)) := by
  unfold processes
  split
  · next hnone => simp [hnone]
  · next first rest hsome => simp [hsome, processFunctions, enclosed]

/-- **The commands for a model.** -/
inductive Writes (m : Model) : Command Line → Prop
  | blank : Writes m .blank
  | close : Writes m (.leave .close)
  | comment {mark : CommentMark} {text : String} (htext : OneLine text) :
      Writes m (.line (.comment mark text))
  -- Structures.
  | unitStruct : Writes m (.enter (.structDecl m.context.unit))
  | ioStruct : Writes m (.enter (.structDecl m.context.io))
  | modelField : Writes m (.line (.fieldDecl (.plain "model") (.plain "SimModel")))
  | ioField : Writes m (.line (.fieldDecl (.plain "io") m.context.io))
  | constantField {d : Variable} {host : HostName} (hhost : m.context.host d.name = .ok host) :
      Writes m (.line (.fieldDecl host (.plain "HdlValue")))
  | unitField {i : Instance} {host type : HostName} (hhost : m.context.host i.name = .ok host)
      (htype : m.context.host i.moduleName = .ok type) : Writes m (.line (.fieldDecl host type))
  | proxyField {d : Variable} {host : HostName} (hhost : m.context.host d.name = .ok host) :
      Writes m (.line (.fieldDecl host (.plain "SimProxy")))
  -- The model's own functions.
  | implBlock : Writes m (.enter (.implBlock m.context.unit))
  | typeFn {t : TypeItem} {host : HostName} (hhost : m.context.host t.name = .ok host) :
      Writes m (.enter (.typeFn host))
  | result {t : TypeItem} {object : String} {v : HostExpr}
      (hv : (m.site .static object).typeItemValue t = .ok v) : Writes m (.line (.result v))
  | newFn : Writes m (.enter .newFn)
  | letModel : Writes m (.line .letModel)
  | letConst {d : Variable} {e : Expr} {object : String} {host : HostName} {v : HostExpr}
      (hhost : m.context.host d.name = .ok host)
      (hv : (m.site .constructor object).value e = .ok v) : Writes m (.line (.letConst host v))
  | letProxy {d : Variable} {object label : String} {host : HostName} {type : HostExpr}
      {init : Option HostExpr} (hhost : m.context.host d.name = .ok host)
      (htype : (m.site .constructor object).typeValue d.type = .ok type)
      (hinit : (m.site .constructor object).initValue d.value = .ok init) :
      Writes m (.line (.letProxy host label type init))
  | letUnit {i : Instance} {host type : HostName} {label : String}
      (hhost : m.context.host i.name = .ok host) (htype : m.context.host i.moduleName = .ok type) :
      Writes m (.line (.letUnit host type label))
  | selfValue : Writes m (.enter .selfValue)
  | modelInit : Writes m (.line (.fieldInit (.plain "model")))
  | fieldInit {n : Ident} {host : HostName} (hhost : m.context.host n = .ok host) :
      Writes m (.line (.fieldInit host))
  | ioValue : Writes m (.enter (.ioValue m.context.io))
  | emptyIoValue : Writes m (.line (.emptyIoValue m.context.io))
  | closeField : Writes m (.leave .closeField)
  -- What the simulator calls.
  | simUnitImpl : Writes m (.enter (.simUnitImpl m.context.unit))
  | modelFn : Writes m (.enter .modelFn)
  | modelRef : Writes m (.line .modelRef)
  | initBodyFn : Writes m (.enter .initBodyFn)
  | connect {i : Instance} {n port : Ident} {object : String} {signal : HostExpr}
      {unit host : HostName} (hi : i ∈ m.body.instances) (hunit : m.context.host i.name = .ok unit)
      (hsignal : (m.site .process object).proxyOf n = .ok signal)
      (hport : m.context.host port = .ok host) : Writes m (.line (.connect signal unit host))
  | setInterfaces {hosts : List HostName}
      (hhosts : m.context.hosts (m.signals.map Variable.name) = .ok hosts) :
      Writes m (.line (.setInterfaces
        (hosts.map fun n => .method (.field .proxies n) "clone" [])))
  | setProcesses {labels : List String} : Writes m (.line (.setProcesses labels))
  | setUnits {hosts : List HostName}
      (hhosts : m.context.hosts (m.body.instances.map Instance.name) = .ok hosts) :
      Writes m (.line (.setUnits
        (hosts.map fun n => .method (.field (.field .self n) (.plain "model")) "clone" [])))
  | setSensitivity {object label : String} {ts : List Trigger} {hosts : List HostTrigger}
      (hhosts : (m.site .process object).hostTriggers ts = .ok hosts) :
      Writes m (.line (.setSensitivity label hosts))
  | setOutputs {object label : String} {ns : List Ident} {ps : List HostExpr}
      (hps : (m.site .process object).proxiesOf ns = .ok ps) :
      Writes m (.line (.setOutputs label (ps.map fun p => .method p "clone" [])))
  | initUnit {i : Instance} {unit : HostName} (hi : i ∈ m.body.instances)
      (hunit : m.context.host i.name = .ok unit) : Writes m (.line (.initUnit unit))
  | runProcessFn : Writes m (.enter .runProcessFn)
  | matchIndex : Writes m (.enter .matchIndex)
  | dispatch {p : ProcessDecl} {index : Nat} {host : HostName} (hp : p ∈ m.body.processes)
      (hhost : m.context.host p.label = .ok host) : Writes m (.line (.dispatch index host))
  | noProcess : Writes m (.line (.noProcess m.context.unit))
  -- Processes.
  | processFn {p : ProcessDecl} {host : HostName} (hhost : m.context.host p.label = .ok host) :
      Writes m (.enter (.processFn host))
  | statement {object : String} {c : Command Line} (hc : (m.site .process object).Writes c) :
      Writes m c

/-- **The steps for a model.**  There are empty lines only if `blanks`, lines by which a simulator
gets to know the model only if `registers`, and reports only if `reports`. -/
inductive Takes (m : Model) (blanks registers reports : Bool) : Step → Prop
  | plain {c : Command Line} (hc : m.Writes c) (hplain : c.isPlain = true) :
      Takes m blanks registers reports (.write c)
  | blank (hblanks : blanks = true) : Takes m blanks registers reports (.write .blank)
  | register {c : Command Line} (hc : m.Writes c) (hline : c.written.registers = true)
      (hregisters : registers = true) : Takes m blanks registers reports (.write c)
  | report {event : Event} (hreports : reports = true) :
      Takes m blanks registers reports (.log event)

variable {m : Model} {blanks registers reports : Bool} {n : Nat}

/-- What a model writes is one of its commands. -/
theorem Takes.writes {c : Command Line} (h : m.Takes blanks registers reports (.write c)) :
    m.Writes c := by
  cases h with
  | plain hc _ => exact hc
  | blank _ => exact .blank
  | register hc _ _ => exact hc

/-- The steps of statements are steps of the model. -/
theorem Takes.of_statement {object : String} {st : Step}
    (h : (m.site .process object).Takes true st) : m.Takes blanks registers true st := by
  cases h with
  | write hc => exact .plain (.statement hc) hc.isPlain
  | warn _ => exact .report rfl

/-- Blocks are ended. -/
theorem Takes.close : m.Takes blanks registers reports (.write (.leave .close)) := .plain .close rfl

/-- Comments are steps of a model. -/
theorem made_documentation (mark : CommentMark) (doc : Option String) :
    Made (m.Takes blanks registers reports) n n (Script.doc mark doc) :=
  made_doc (fun _ htext => .plain (.comment htext) rfl) doc

/-- The fields of the structure. -/
theorem made_fieldLines : Made (m.Takes blanks registers reports) n n m.fieldLines := by
  unfold fieldLines
  exact made_bind (made_line (.plain .modelField rfl)) fun _ _ =>
    made_bind (made_line (.plain .ioField rfl)) fun _ _ =>
    made_bind (made_forEach fun _ _ => made_lift fun _ hhost =>
      made_line (.plain (.constantField hhost) rfl)) fun _ _ =>
    made_forEach fun _ _ => made_lift fun _ hhost => made_lift fun _ htype =>
      made_line (.plain (.unitField hhost htype) rfl)

/-- The fields of the bundle of proxies. -/
theorem made_proxyLines : Made (m.Takes blanks registers reports) n n m.proxyLines :=
  made_forEach fun _ _ => made_lift fun _ hhost => made_line (.plain (.proxyField hhost) rfl)

/-- The structures. -/
theorem made_structures : Made (m.Takes true registers reports) n n m.structures := by
  rw [structures_eq]
  exact made_bind (made_documentation _ _) fun _ _ =>
    made_bind (made_enclosed (.plain .unitStruct rfl) made_fieldLines .close) fun _ _ =>
    made_bind (made_blank (.blank rfl)) fun _ _ =>
    made_bind (made_enclosed (.plain .ioStruct rfl) made_proxyLines .close) fun _ _ =>
    made_blank (.blank rfl)

private theorem made_typeFunction (t : TypeItem) :
    Made (m.Takes true registers reports) n n (m.typeFunction t) := by
  rw [typeFunction_eq]
  exact made_lift fun _ _ => made_lift fun _ hv => made_bind (made_documentation _ _) fun _ _ =>
    made_lift fun _ hhost => made_bind (made_enclosed (.plain (.typeFn hhost) rfl)
      (made_line (.plain (.result hv) rfl)) .close) fun _ _ => made_blank (.blank rfl)

/-- The local for a declaration. -/
theorem made_declaration (kind : String) (d : Variable) :
    Made (m.Takes blanks registers reports) n n (m.declaration kind d) := by
  unfold declaration
  refine made_lift fun name _ => made_lift fun host hhost => ?_
  refine made_bind (made_documentation _ _) fun _ _ => ?_
  split
  · split
    · exact made_fail _
    · exact made_lift fun _ hv => made_line (.plain (.letConst hhost hv) rfl)
  · exact made_lift fun _ htype => made_lift fun _ hinit =>
      made_line (.plain (.letProxy hhost htype hinit) rfl)

private theorem made_instanceLocal (i : Instance) :
    Made (m.Takes blanks registers reports) n n (m.instanceLocal i) := by
  unfold instanceLocal
  exact made_bind (made_documentation _ _) fun _ _ => made_lift fun _ hhost =>
    made_lift fun _ htype => made_lift fun _ _ => made_line (.plain (.letUnit hhost htype) rfl)

/-- A heading, and something for each member of a list. -/
theorem made_headed {α : Type} {heading : String} (hheading : OneLine heading) {xs : List α}
    {f : α → Script Unit} (h : ∀ x ∈ xs, Made (m.Takes blanks registers reports) n n (f x)) :
    Made (m.Takes blanks registers reports) n n (headed heading xs f) := by
  unfold headed
  split
  · exact made_pure ()
  · exact made_bind (made_line (.plain (.comment hheading) rfl)) fun _ _ => made_forEach h

/-- The initial value of a field. -/
theorem made_fieldInit (x : Ident) :
    Made (m.Takes blanks registers reports) n n (m.fieldInit x) :=
  made_lift fun _ hhost => made_line (.plain (.fieldInit hhost) rfl)

private theorem made_ioValue : Made (m.Takes blanks registers reports) n n m.ioValue := by
  unfold ioValue
  split
  · exact made_line (.plain .emptyIoValue rfl)
  · exact made_bind (made_enter (.plain .ioValue rfl)) fun _ _ =>
      made_bind (made_forEach fun _ _ => made_fieldInit _) fun _ _ =>
      made_leaveWith (.plain .closeField rfl)

private theorem made_selfValue : Made (m.Takes blanks registers reports) n n m.selfValue := by
  unfold selfValue
  exact made_bind (made_enter (.plain .selfValue rfl)) fun _ _ =>
    made_bind (made_line (.plain .modelInit rfl)) fun _ _ => made_bind made_ioValue fun _ _ =>
    made_bind (made_forEach fun _ _ => made_fieldInit _) fun _ _ =>
    made_bind (made_forEach fun _ _ => made_fieldInit _) fun _ _ => made_leave .close

/-- The body of the function that makes a model. -/
theorem made_newBody : Made (m.Takes blanks registers reports) n n m.newBody := by
  unfold newBody
  exact made_bind (made_line (.plain .letModel rfl)) fun _ _ =>
    made_bind (made_headed (by decide) fun d _ => made_declaration _ d) fun _ _ =>
    made_bind (made_headed (by decide) fun d _ => made_declaration _ d) fun _ _ =>
    made_bind (made_headed (by decide) fun i _ => made_instanceLocal i) fun _ _ => made_selfValue

/-- The functions that make a model and its types. -/
theorem made_constructor : Made (m.Takes true registers reports) n n m.constructor := by
  rw [constructor_eq, makers]
  exact made_bind (made_enclosed (.plain .implBlock rfl) (made_bind (made_forEach fun t _ =>
    made_typeFunction t) fun _ _ => made_enclosed (.plain .newFn rfl) made_newBody .close) .close)
    fun _ _ => made_blank (.blank rfl)

private theorem made_connections {i : Instance} (hi : i ∈ m.body.instances) :
    Made (m.Takes blanks registers reports) n n (m.connections i) := by
  unfold connections
  exact made_lift fun _ _ => made_lift fun _ hunit => made_forEach fun _ _ =>
    made_lift fun _ hsignal => made_lift fun _ hport =>
    made_line (.plain (.connect hi hunit hsignal hport) rfl)

private theorem made_registration (p : ProcessDecl) :
    Made (m.Takes blanks true reports) n n (m.registration p) := by
  unfold registration
  refine made_lift fun label _ => made_lift fun triggers _ => made_lift fun hosts hhosts => ?_
  split
  · exact made_fail _
  · exact made_lift fun _ hps =>
      made_bind (made_line (.register (.setSensitivity hhosts) rfl rfl)) fun _ _ =>
      made_bind (made_line (.register (.setOutputs hps) rfl rfl)) fun _ _ => made_lift fun _ _ =>
      made_lift fun _ _ => made_pure _

/-- The body of the function that registers everything. -/
theorem made_wiring : Made (m.Takes blanks true reports) n n m.wiring := by
  unfold wiring
  exact made_bind (made_forEach fun _ hi => made_connections hi) fun _ _ => made_lift fun _ _ =>
    made_lift fun _ _ => made_lift fun _ hfields =>
    made_bind (made_line (.register (.setInterfaces hfields) rfl rfl)) fun _ _ =>
    made_lift fun _ _ => made_bind (made_line (.register .setProcesses rfl rfl)) fun _ _ =>
    made_lift fun _ _ => made_lift fun _ hunits =>
    made_bind (made_line (.register (.setUnits hunits) rfl rfl)) fun _ _ =>
    made_bind (made_mapM fun p _ => made_registration p) fun _ _ =>
    made_bind (made_forEach fun _ hi => made_lift fun _ hunit =>
      made_line (.plain (.initUnit hi hunit) rfl)) fun _ _ => made_pure _

/-- The calls of the processes by their numbers. -/
private theorem made_dispatch {index : Nat} {ps : List ProcessDecl}
    (hps : ∀ p ∈ ps, p ∈ m.body.processes) :
    Made (m.Takes blanks true reports) n n (m.dispatch index ps) := by
  induction ps generalizing index with
  | nil => exact made_pure ()
  | cons p ps ih =>
      obtain ⟨hp, hrest⟩ := List.forall_mem_cons.mp hps
      exact made_lift fun _ hhost =>
        made_bind (made_line (.register (.dispatch hp hhost) rfl rfl)) fun _ _ => ih hrest

/-- The body of the function that calls a process by its number. -/
theorem made_dispatcher : Made (m.Takes blanks true reports) n n m.dispatcher :=
  made_enclosed (.plain .matchIndex rfl) (made_bind (made_dispatch fun _ hp => hp) fun _ _ =>
    made_line (.plain .noProcess rfl)) .close

/-- The functions that the simulator calls. -/
theorem made_simUnit : Made (m.Takes true true reports) n n m.simUnit := by
  rw [simUnit_eq, callbacks]
  refine made_enclosed (.plain .simUnitImpl rfl) ?_ .close
  exact made_bind (made_enclosed (.plain .modelFn rfl) (made_line (.plain .modelRef rfl)) .close)
    fun _ _ => made_bind (made_blank (.blank rfl)) fun _ _ =>
    made_bind (made_enclosed (.plain .initBodyFn rfl) made_wiring .close) fun _ _ =>
    made_bind (made_blank (.blank rfl)) fun _ _ =>
    made_bind (made_enclosed (.register .runProcessFn rfl rfl) made_dispatcher .close) fun _ _ =>
    made_pure _

/-- The function for a process. -/
theorem made_processFunction (p : ProcessDecl) :
    Made (m.Takes blanks registers true) n n (m.processFunction p) := by
  rw [processFunction_eq]
  exact made_lift fun _ _ => made_bind (made_documentation _ _) fun _ _ =>
    made_lift fun _ hhost => made_bind (made_enclosed (.plain (.processFn hhost) rfl)
      ((Site.made_statements _).mono fun _ => Takes.of_statement) .close) fun _ _ =>
    made_log (.report rfl)

private theorem made_processes : Made (m.Takes true registers true) n n m.processes := by
  unfold processes
  split
  · exact made_pure ()
  · exact made_bind (made_blank (.blank rfl)) fun _ _ =>
      made_bind (made_enter (.plain .implBlock rfl)) fun _ _ =>
      made_bind (made_processFunction _) fun _ _ =>
      made_bind (made_forEach fun p _ => made_bind (made_blank (.blank rfl)) fun _ _ =>
        made_processFunction p) fun _ _ => made_leave .close

/-- **The code of a model** is written with the commands for models. -/
theorem made_code : Made (m.Takes true true true) n n m.code := by
  unfold code
  exact made_bind made_structures fun _ _ => made_bind made_constructor fun _ _ =>
    made_bind made_simUnit fun _ _ => made_bind made_processes fun _ _ => made_pure _

/-- **Models** are written with the commands for models. -/
theorem each_code : Each m.Writes m.code := (made_code (n := 0)).each fun _ => Takes.writes

/-- The imports are lines of their own, with an empty line behind them. -/
theorem made_imports {T : Step → Prop} {settings : Settings}
    (himport : ∀ path ∈ settings.modulePath, ∀ names, m.importNames = .ok names →
      ∀ name ∈ names, T (.write (.line (.useModule path name))))
    (hblank : T (.write .blank)) : Made T n n (m.imports settings) := by
  unfold imports
  cases hpath : settings.modulePath with
  | none => exact made_pure ()
  | some path =>
      refine made_lift fun names hnames => made_bind (made_lines ?_) fun _ _ => ?_
      · exact List.forall_mem_map.mpr fun name hname => himport path hpath names hnames name hname
      · split
        · exact made_pure ()
        · exact made_blank hblank

end Model

end HdlSim
