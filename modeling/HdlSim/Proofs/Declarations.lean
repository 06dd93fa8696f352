import HdlSim.Proofs.Escaping
import HdlSim.Proofs.ModelItems
import HdlSim.Proofs.ModuleRegistration
import Mathlib.Data.List.Nodup

/-!
# Declared names

What a model declares are the names of its module and those that every model has
(`HostModel.Declares`).  The words of host identifiers are none of the reserved ones, and different
identifiers have different words, so names that do not collide stay apart
(`Separate.nodup_words`).

Main statement: if no name is declared twice in the module, no name is declared twice among the
fields, the proxies, the variables of the constructor or the functions of its model
(`emit_declares_once`).
-/

namespace HdlSim

open Text Script HostExpr

/-! ### The variables of the constructor -/

/-- The variables that the code declares are these, whatever follows. -/
def Lets (ns : List HostName) (ts : List Token) : Prop :=
  ∀ us, letNames (ts ++ us) = ns ++ letNames us

/-- Statements that bind variables can be put together. -/
theorem piecewise_lets : Piecewise Lets where
  nil := fun _ => rfl
  append := by
    intro ns ms ts us hts hus more
    rw [List.append_assoc, hts, hus, List.append_assoc]

/-- No variable is declared. -/
def NoLet (ts : List Token) : Prop := ∀ t ∈ ts, t ≠ .word "let"

instance (ts : List Token) : Decidable (NoLet ts) := by
  unfold NoLet; infer_instance

/-- Two lists of tokens that bind nothing. -/
theorem noLet_append {ts us : List Token} : NoLet (ts ++ us) ↔ NoLet ts ∧ NoLet us :=
  List.forall_mem_append

/-- One more token that binds nothing. -/
@[simp] theorem noLet_cons {t : Token} {ts : List Token} :
    NoLet (t :: ts) ↔ t ≠ .word "let" ∧ NoLet ts :=
  List.forall_mem_cons

/-- No tokens bind nothing. -/
theorem noLet_nil : NoLet [] := by simp [NoLet]

/-- Tokens that bind nothing bind no variables. -/
theorem lets_of_noLet {ts : List Token} (h : NoLet ts) : Lets [] ts := by
  intro us
  induction ts with
  | nil => rfl
  | cons t ts ih =>
      obtain ⟨ht, hts⟩ := noLet_cons.mp h
      rw [List.cons_append, letNames]
      · exact ih hts
      · intro n rest heq
        exact absurd heq ht

/-- A binding is followed by tokens that bind nothing. -/
theorem lets_of_let {n : HostName} (hn : n.IsProper) {ts : List Token} (h : NoLet ts) :
    Lets [n] (.word "let" :: .word n.text :: ts) := by
  intro us
  rw [List.cons_append, List.cons_append, letNames, hn.name?, lets_of_noLet h us]
  rfl

/-- What is said about code depends on nothing but the variables that it declares. -/
structure AboutLets {ι : Type} (R : List ι → List Token → Prop) : Prop extends Piecewise R where
  noLet : ∀ {ts}, NoLet ts → R [] ts

/-- The variables of the constructor are about its bindings only. -/
private theorem aboutLets_lets : AboutLets Lets := ⟨piecewise_lets, lets_of_noLet⟩

/-- No identifier begins a binding. -/
theorem HostName.IsProper.ne_let {n : HostName} (h : n.IsProper) :
    Token.word n.text ≠ .word "let" := by
  intro heq
  have hlet : Token.name? (.word "let") = none := by decide
  have hname := h.name?
  rw [heq, hlet] at hname
  cases hname

/-- An operand binds nothing. -/
theorem HostExpr.Operand.noLet {e : HostExpr} (h : Operand e) : NoLet e.tokens := by
  have hlet : ¬ Token.InExpr (.word "let") := by decide
  intro t ht
  rintro rfl
  exact hlet (h.derives.inExpr _ ht)

/-- An initial value binds nothing. -/
theorem noLet_initTokens {init : Option HostExpr} (h : ∀ v ∈ init, Operand v) :
    NoLet (initTokens init) := by
  cases init with
  | none => simp [initTokens, noLet_nil]
  | some v =>
      have hvalue := (h v rfl).noLet
      simp [initTokens, noLet_append, hvalue, noLet_nil]

/-- An initial value is an operand. -/
theorem Site.initValue_operand {s : Site} {e : Option Expr} {init : Option HostExpr}
    (h : s.initValue e = .ok init) : ∀ v ∈ init, Operand v := by
  intro v hv
  obtain ⟨x, hx⟩ := exists_of_initValue h v hv
  exact (value_mirrors hx).operand

namespace Model

variable {m : Model}

/-- A declaration binds the variable of its name. -/
private theorem says_declaration (kind : String) (d : Variable) :
    Says Lets [m.context.names.hostOf d.name] (m.declaration kind d) := by
  unfold declaration
  refine says_lift fun name hname => says_lift fun host hhost => ?_
  obtain rfl := Context.host_ok hhost
  have hproper := m.context.names.isProper_hostOf d.name
  refine says_after piecewise_lets (says_doc piecewise_lets _ _) fun _ _ => ?_
  split
  · split
    · exact says_fail _
    · refine says_lift fun v hv => says_line (lets_of_let hproper ?_)
      have hvalue := (Site.value_mirrors hv).operand.noLet
      simp [noLet_append, hvalue, noLet_nil]
  · refine says_lift fun type htype => says_lift fun init hinit =>
      says_line (lets_of_let hproper ?_)
    have hvalue := (Site.typeValue_mirrors htype).operand.noLet
    have hvalues := noLet_initTokens (Site.initValue_operand hinit)
    simp [noLet_append, hvalue, hvalues, noLet_nil]

/-- An instance binds the variable of its name. -/
private theorem says_instanceLocal (i : Instance) :
    Says Lets [m.context.names.hostOf i.name] (m.instanceLocal i) := by
  unfold instanceLocal
  refine says_after piecewise_lets (says_doc piecewise_lets _ _) fun _ _ => ?_
  refine says_lift fun host hhost => says_lift fun type htype => says_lift fun label _ => ?_
  obtain rfl := Context.host_ok hhost
  refine says_line (lets_of_let (m.context.names.isProper_hostOf i.name) ?_)
  simp [(Context.isProper_host htype).ne_let, noLet_nil]

/-- A heading says nothing. -/
theorem says_headed {α ι : Type} {R : List ι → List Token → Prop} (hR : Piecewise R)
    (heading : String) {xs : List α} {f : α → Script Unit} {g : α → List ι}
    (h : ∀ x ∈ xs, Says R (g x) (f x)) : Says R (xs.flatMap g) (headed heading xs f) := by
  unfold headed
  by_cases hempty : xs.isEmpty = true
  · rw [if_pos hempty, List.isEmpty_iff.mp hempty]
    exact says_pure hR ()
  · rw [if_neg hempty]
    exact says_after hR (says_line hR.nil) fun _ _ => says_forEach hR h

section

variable {ι : Type} {R : List ι → List Token → Prop} (hR : AboutLets R)

include hR

private theorem says_fieldInit (n : Ident) : Says R [] (m.fieldInit n) := by
  refine says_lift fun host hhost => says_line (hR.noLet ?_)
  simp [Line.tokens, (Context.isProper_host hhost).ne_let, noLet_nil]

/-- The values of some fields bind nothing. -/
theorem says_fieldInits {α : Type} (xs : List α) (f : α → Ident) :
    Says R [] (forEach xs fun x => m.fieldInit (f x)) :=
  (says_forEach hR.toPiecewise fun x _ => says_fieldInit hR (f x)).congr (by simp)

private theorem says_ioValue : Says R [] m.ioValue := by
  have hio := m.context.isProper_io.ne_let
  unfold ioValue
  split
  · exact says_line (hR.noLet (by simp [Line.tokens, hio, noLet_nil]))
  · refine says_after hR.toPiecewise (says_enter (hR.noLet ?_)) fun _ _ => ?_
    · simp [Line.tokens, hio, noLet_nil]
    · exact says_after hR.toPiecewise (says_fieldInits hR m.signals _) fun _ _ =>
        says_leaveWith (hR.noLet (by decide))

private theorem says_selfValue : Says R [] m.selfValue := by
  unfold selfValue
  exact says_after hR.toPiecewise (says_enter (hR.noLet (by decide))) fun _ _ =>
    says_after hR.toPiecewise (says_line (hR.noLet (by decide))) fun _ _ =>
    says_after hR.toPiecewise (says_ioValue hR) fun _ _ =>
    says_after hR.toPiecewise (says_fieldInits hR m.constants _) fun _ _ =>
    says_after hR.toPiecewise (says_fieldInits hR m.body.instances _) fun _ _ =>
    says_leave (hR.noLet (by decide))

/-- **The constructor** declares a variable for what the simulator keeps, then one for each port,
variable and instance. -/
theorem says_newBody {first : ι} {decl : Variable → ι} {unit : Instance → ι}
    (hfirst : Says R [first] (line .letModel))
    (hdecl : ∀ kind d, Says R [decl d] (m.declaration kind d))
    (hunit : ∀ i, Says R [unit i] (m.instanceLocal i)) :
    Says R (first :: (m.decls.map decl ++ m.body.instances.map unit)) m.newBody := by
  have hparts : Says R _ m.newBody :=
    says_bind hR.toPiecewise hfirst fun _ _ =>
    says_bind hR.toPiecewise (says_headed hR.toPiecewise _ fun d _ => hdecl _ d) fun _ _ =>
    says_bind hR.toPiecewise (says_headed hR.toPiecewise _ fun d _ => hdecl _ d) fun _ _ =>
    says_before hR.toPiecewise (says_headed hR.toPiecewise _ fun i _ => hunit i) fun _ _ =>
    says_selfValue hR
  exact hparts.congr (by simp [decls, List.map_eq_flatMap])

end

/-- The script of the constructor succeeds with the model. -/
theorem outcome_newBody {summary : Summary} (hok : m.code.outcome = .ok summary) :
    m.newBody.outcome = .ok () := by
  have hmakers := outcome_makers hok
  simp only [makers, outcome_bind, outcome_enclosed] at hmakers
  obtain ⟨_, -, hnew⟩ := Except.bind_eq_ok_iff.mp hmakers
  exact hnew

/-- The parameters of the function that makes a model. -/
private theorem newFunction_paramNames (m : Model) :
    m.newFunction.paramNames = [.plain "sim", .plain "inst_name"] := by
  have hparams : HostFunction.paramsFrom true
      [.word "sim", .sign ':', .sign '&', .word "mut", .word "Simulator", .sign ',',
        .word "inst_name", .sign ':', .sign '&', .word "str"] =
      [.plain "sim", .plain "inst_name"] := by decide
  exact hparams

/-- The variables of the function that makes a model: the simulator's part of the model, then one
for each declaration and instance. -/
private theorem newFunction_localNames {summary : Summary} (hok : m.code.outcome = .ok summary) :
    m.newFunction.localNames = .plain "model" :: (m.decls.map Variable.name ++
      m.body.instances.map Instance.name).map m.context.names.hostOf := by
  have hmodel : Says Lets [.plain "model"] (line .letModel) :=
    says_line (lets_of_let (by decide) (by simp [noLet_nil]))
  have hlets := says_newBody aboutLets_lets hmodel says_declaration says_instanceLocal _
    (outcome_newBody hok) []
  rw [List.append_nil] at hlets
  rw [HostFunction.localNames, newFunction, hlets]
  simp [letNames, Function.comp_def]

end Model

/-! ### Words -/

/-- The words of host identifiers. -/
def HostName.words (ns : List HostName) : List String := ns.map HostName.word

/-- Known names that do not collide have different host identifiers. -/
theorem NoCollision.hostOf_inj {names : NameTable} {all : List Ident} (h : NoCollision names all)
    (hknown : ∀ n ∈ all, names.Resolves n) {n n' : Ident} (hn : n ∈ all) (hn' : n' ∈ all)
    (heq : names.hostOf n = names.hostOf n') : n = n' := by
  obtain ⟨text, htext⟩ := hknown n hn
  obtain ⟨text', htext'⟩ := hknown n' hn'
  rw [NameTable.hostOf, NameTable.hostOf, NameTable.textOf, NameTable.textOf, htext,
    htext'] at heq
  exact h n hn n' hn' text text' htext htext' heq

/-- The names are known, each is in the list once, and no two of them collide. -/
structure Separate (names : NameTable) (all : List Ident) : Prop where
  resolves : ∀ n ∈ all, names.Resolves n
  apart : NoCollision names all
  nodup : all.Nodup

namespace Separate

variable {names : NameTable} {all ns : List Ident}

/-- Separate names have different words. -/
theorem word_inj (h : Separate names all) {n n' : Ident} (hn : n ∈ all) (hn' : n' ∈ all)
    (heq : (names.hostOf n).word = (names.hostOf n').word) : n = n' :=
  h.apart.hostOf_inj h.resolves hn hn' (HostName.escape_word_inj heq)

/-- **Distinct words.**  Neither reserved words nor separate names get into each other's way. -/
theorem nodup_words (h : Separate names all) (fixed : List String) (hfixed : fixed.Nodup)
    (hreserved : ∀ w ∈ fixed, w ∈ HostName.reserved) (hns : ns.Sublist all) :
    (fixed ++ HostName.words (ns.map names.hostOf)).Nodup := by
  have hwords : (HostName.words (ns.map names.hostOf)).Nodup := by
    rw [HostName.words, List.map_map]
    refine List.Nodup.map_on (fun n hn n' hn' heq => ?_) (h.nodup.sublist hns)
    exact h.word_inj (hns.subset hn) (hns.subset hn') heq
  refine List.nodup_append.mpr ⟨hfixed, hwords, ?_⟩
  rintro w hw _ hw' rfl
  obtain ⟨host, hhost, rfl⟩ := List.mem_map.mp hw'
  obtain ⟨n, -, rfl⟩ := List.mem_map.mp hhost
  exact HostName.escape_word_not_mem _ (hreserved _ hw)

end Separate

/-! ### What a model declares -/

/-- What the model declares: the names of the module, and those that every model has. -/
structure HostModel.Declares (names : NameTable) (m : Module) (h : HostModel) : Prop where
  unit : h.unit = names.hostOf m.name
  io : h.io = .plain ((names.hostOf m.name).word ++ "Io")
  /-- The model has a bundle of proxies. -/
  bundle : ⟨.plain "io", h.io⟩ ∈ h.fields
  fields : h.fields.map HostField.name = .plain "model" :: .plain "io" ::
    (((m.ports ++ m.variables).filter Variable.isConst).map Variable.name ++
      m.instances.map Instance.name).map names.hostOf
  proxies : h.proxies.map HostField.name =
    (((m.ports ++ m.variables).filter fun d => !d.isConst).map Variable.name).map names.hostOf
  types : h.types.map HostFunction.name =
    ((Body.ofItems m.items).types.map TypeItem.name).map names.hostOf
  new : h.new.name = .plain "new"
  params : h.new.paramNames = [.plain "sim", .plain "inst_name"]
  locals : h.new.localNames = .plain "model" ::
    ((m.ports ++ m.variables).map Variable.name ++ m.instances.map Instance.name).map names.hostOf
  callbacks : h.callbacks.map HostFunction.name =
    [.plain "model", .plain "init_body", .plain "run_process"]
  processes : h.processes.map HostFunction.name =
    (m.processes.map ProcessDecl.label).map names.hostOf

/-- The model of a module declares what the module does. -/
theorem Model.host_declares {names : NameTable} {name : String} {m : Module} {summary : Summary}
    (hname : names.resolve? m.name = some name)
    (hok : (m.model names name).code.outcome = .ok summary) :
    (m.model names name).host.Declares names m where
  unit := by
    simp [Model.host, Module.model, Context.unit, NameTable.hostOf, NameTable.textOf, hname]
  io := by
    simp [Model.host, Module.model, Context.io, Context.unit, NameTable.hostOf, NameTable.textOf,
      hname]
  bundle := List.mem_cons_of_mem _ List.mem_cons_self
  fields := by
    simp [Model.host, Model.fields, Module.model, Model.constants, Model.decls, m.variables_eq,
      Function.comp_def, Module.instances, Body.ofItems]
  proxies := by
    simp [Model.host, Model.proxyFields, Module.model, Model.signals, Model.decls, m.variables_eq,
      Function.comp_def, Body.ofItems]
  types := by
    simp [Model.host, Model.maker, Module.model, Function.comp_def]
  new := rfl
  params := Model.newFunction_paramNames _
  locals := by
    rw [m.variables_eq]
    exact Model.newFunction_localNames hok
  callbacks := rfl
  processes := by
    simp [Model.host, Model.processMethod, Module.model, Function.comp_def, Module.processes,
      Body.ofItems]

/-- The functions of a model. -/
def HostModel.functions (h : HostModel) : List HostFunction :=
  h.types ++ h.new :: (h.callbacks ++ h.processes)

/-- No name is declared twice. -/
structure HostModel.DeclaresOnce (h : HostModel) : Prop where
  fields : (HostName.words (h.fields.map HostField.name)).Nodup
  proxies : (HostName.words (h.proxies.map HostField.name)).Nodup
  /-- The parameters and the variables of the constructor. -/
  locals : (HostName.words (h.new.paramNames ++ h.new.localNames)).Nodup
  functions : (HostName.words (h.functions.map HostFunction.name)).Nodup

namespace HostModel.Declares

variable {names : NameTable} {m : Module} {h : HostModel}

/-- The functions of a model have different names. -/
theorem nodup_functions (hdeclares : h.Declares names m)
    (hfunctions : Separate names (Scope.functionNames (Body.ofItems m.items))) :
    (HostName.words (h.functions.map HostFunction.name)).Nodup := by
  have hall := hfunctions.nodup_words ["new", "model", "init_body", "run_process"] (by decide)
    (by decide) (List.Sublist.refl _)
  have hform : h.functions.map HostFunction.name =
      ((Body.ofItems m.items).types.map TypeItem.name).map names.hostOf ++
        ([HostName.plain "new", .plain "model", .plain "init_body", .plain "run_process"] ++
          (m.processes.map ProcessDecl.label).map names.hostOf) := by
    simp [functions, hdeclares.types, hdeclares.new, hdeclares.callbacks, hdeclares.processes]
  rw [hform, HostName.words, (List.perm_append_comm_assoc _ _ _).map _ |>.nodup_iff]
  rw [Scope.functionNames, List.map_append] at hall
  exact hall

/-- A model declares everything once. -/
theorem once (hdeclares : h.Declares names m)
    (hfields : Separate names (Scope.fieldNames m.ports (Body.ofItems m.items)))
    (hfunctions : Separate names (Scope.functionNames (Body.ofItems m.items))) :
    h.DeclaresOnce := by
  have hdecls : Scope.fieldNames m.ports (Body.ofItems m.items) =
      (m.ports ++ m.variables).map Variable.name ++ m.instances.map Instance.name := by
    rw [m.variables_eq]
    rfl
  rw [hdecls] at hfields
  have hsome : ∀ keep, List.Sublist (((m.ports ++ m.variables).filter keep).map Variable.name)
      ((m.ports ++ m.variables).map Variable.name) :=
    fun keep => List.filter_sublist.map _
  refine ⟨?_, ?_, ?_, hdeclares.nodup_functions hfunctions⟩
  · rw [hdeclares.fields]
    exact hfields.nodup_words ["model", "io"] (by decide) (by decide)
      ((hsome _).append (List.Sublist.refl _))
  · rw [hdeclares.proxies]
    exact hfields.nodup_words [] List.nodup_nil (by simp)
      ((hsome _).trans (List.sublist_append_left _ _))
  · rw [hdeclares.params, hdeclares.locals]
    exact hfields.nodup_words ["sim", "inst_name", "model"] (by decide) (by decide)
      (List.Sublist.refl _)

end HostModel.Declares

/-- **No name is declared twice.**  If no name of the module is declared twice among its ports,
variables and instances, nor among its types and processes, then what is read from the text that is
added behind the imports declares the names of the module, and none of them twice. -/
theorem emit_declares_once (names : NameTable) (settings : Settings) (session : Session)
    (m : Module) {summary : Summary} (h : (session.emit names settings m).result = .ok summary)
    (hfields : (Scope.fieldNames m.ports (Body.ofItems m.items)).Nodup)
    (hfunctions : (Scope.functionNames (Body.ofItems m.items)).Nodup) :
    ∃ host code, (session.emit names settings m).session.text =
        session.text ++ session.head settings (m.submodules names) ++ code ∧
      HostItem.read code = some host.items ∧ HostModel.Declares names m host ∧
      host.DeclaresOnce := by
  obtain ⟨name, hname, hmodel, hcode, htext⟩ := Session.emit_code h
  obtain ⟨-, -, hscope⟩ := Model.ofModule_succeeds_iff.mp ⟨_, hmodel⟩
  obtain ⟨⟨hfieldsKnown, hfieldsApart⟩, hfunctionsKnown, hfunctionsApart⟩ :=
    Scope.build_succeeds_iff.mp hscope
  have hdeclares := Model.host_declares hname hcode
  refine ⟨_, _, htext, Model.read_code hcode _, hdeclares, ?_⟩
  exact hdeclares.once ⟨hfieldsKnown, hfieldsApart, hfields⟩
    ⟨hfunctionsKnown, hfunctionsApart, hfunctions⟩

/-- A module whose names are keywords and words that every model has. -/
theorem emit_declares_once_reserved :
    let names : NameTable :=
      ⟨["top", "model", "fn", "sim", "new", "IDLE", "sub", "io", "d", "run_process"]⟩
    let settings : Settings := .withModulePath "crate::models"
    let session : Session := .start none
    let m : Module :=
      { Module.empty ⟨0⟩ with
        ports := [.port ⟨1⟩ .input (.bits 1 false), .port ⟨2⟩ .input (.bits 1 false)]
        items :=
          [.enumType ⟨⟨4⟩, none, [⟨⟨5⟩, none⟩]⟩,
            .varDecl (.constant ⟨3⟩ (.bits 8 false) (.literal (.int 8))),
            .process ((ProcessDecl.ofBody ⟨9⟩ [.edge .rising (.name ⟨1⟩)]
              [.assign (.name ⟨2⟩) (.name ⟨1⟩)]).withOutputs [⟨2⟩]),
            .subunit (.ofBindings ⟨7⟩ ⟨6⟩ [(⟨8⟩, ⟨2⟩)])] }
    let summary : Summary :=
      ⟨"top", ["model", "fn"], ["sim"], [⟨"run_process", [⟨"model", .rising⟩], ["fn"]⟩], ["io"]⟩
    (session.emit names settings m).result = .ok summary ∧
      (Scope.fieldNames m.ports (Body.ofItems m.items)).Nodup ∧
      (Scope.functionNames (Body.ofItems m.items)).Nodup ∧
      ∃ host code, (session.emit names settings m).session.text =
          session.text ++ session.head settings (m.submodules names) ++ code ∧
        HostItem.read code = some host.items ∧ HostModel.Declares names m host ∧
        host.DeclaresOnce := by
  intro names settings session m summary
  have houtcome : (session.moduleScript settings ⟨names, "top"⟩ m).outcome = .ok summary := rfl
  have hname : names.resolve? m.name = some "top" := rfl
  have hlimit : session.writer.sink.limit = none := rfl
  have hresult : (session.emit names settings m).result = .ok summary := by
    rw [Session.emit_unlimited hname hlimit settings, houtcome]
  have hfields : (Scope.fieldNames m.ports (Body.ofItems m.items)).Nodup := by decide
  have hfunctions : (Scope.functionNames (Body.ofItems m.items)).Nodup := by decide
  exact ⟨hresult, hfields, hfunctions,
    emit_declares_once names settings session m hresult hfields hfunctions⟩

end HdlSim
