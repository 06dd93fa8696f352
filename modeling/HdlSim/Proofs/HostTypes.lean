import HdlSim.Proofs.Composition
import HdlSim.Proofs.Declarations
import Mathlib.Data.List.Nodup
import Mathlib.Tactic.MkIffOfInductiveProp

/-!
# The types of a design

The model of a module brings two types with it: its own, which has the host identifier of the
module, and that of the bundle of its proxies, which has the same word with `Io` behind it.  If all
models stand in one file, these are the structures of the file (`lowerDesign_structs`), and a
sub-unit is a field whose type is the model of its module (`emit_subunits`).

Nothing keeps the types of different modules apart.  They are different exactly as long as no two
modules have names with the same host identifier, or names of which one has the word of the other
with `Io` behind it (`host_types_distinct_iff`).
-/

namespace HdlSim

open Script

/-- The structure that an item declares. -/
def HostItem.structName? : HostItem → Option HostName
  | .struct name _ => some name
  | .impl .. => none

/-- The structures that items declare. -/
def HostItem.structNames (items : List HostItem) : List HostName :=
  items.filterMap structName?

/-- The types that the model of a module brings with it. -/
def NameTable.typesOf (names : NameTable) (m : Module) : List HostName :=
  [names.hostOf m.name, .plain ((names.hostOf m.name).word ++ "Io")]

/-! ### The text of a design -/

/-- The model of a module. -/
def Module.ownModel (names : NameTable) (m : Module) : Model := m.model names (names.textOf m.name)

/-- The text of the code of a model. -/
def Model.codeText (m : Model) : String := String.ofList (rendered 0 m.code.steps)

private theorem HostModel.structNames_items (h : HostModel) :
    HostItem.structNames h.items = [h.unit, h.io] := by
  unfold HostModel.items HostItem.structNames
  rw [List.filterMap_append]
  split <;> rfl

section

-- An identifier is compared as a whole and never by how a name is escaped.
attribute [local irreducible] HostName.escape

/-- The structures of a module are named after it. -/
private theorem Module.structNames_ownModel (names : NameTable) (m : Module) :
    HostItem.structNames (m.ownModel names).host.items = names.typesOf m :=
  HostModel.structNames_items _

end

section

variable {names : NameTable} {settings : Settings}

/-- A module alone ends as its script does. -/
theorem lowerModule_result {m : Module} {name : String}
    (hname : names.resolve? m.name = some name) : (lowerModule names settings m).result =
      ((Session.start none).moduleScript settings ⟨names, name⟩ m).outcome :=
  Session.emit_unlimited hname rfl settings

/-- In a file for all models there is nothing in front of a model. -/
theorem bodyText_of_inline (hpath : settings.modulePath = none) {m : Module} {summary : Summary}
    (h : (lowerModule names settings m).result = .ok summary) :
    (m.ownModel names).code.outcome = .ok summary ∧
      bodyText names settings m = (m.ownModel names).codeText := by
  have hbare : ((Session.start none).emit names settings.bare m).result = .ok summary :=
    (Session.lowerModule_bare_result names settings m).trans h
  obtain ⟨name, hname, -, hcode, htext⟩ := Session.emit_code hbare
  have hown : m.ownModel names = m.model names name := by
    simp [Module.ownModel, NameTable.textOf, hname]
  have hhead : (Session.start none).head settings.bare (m.submodules names) = "" := by
    simp [Session.head, Session.headLines, importLines, Settings.bare, hpath, Session.start]
  refine ⟨hown ▸ hcode, ?_⟩
  rw [bodyText, lowerModule, htext, hhead, hown]
  simp [Model.codeText, Session.start, Session.text, Writer.start]

end

/-- The code of models behind one another, with an empty line in front of each. -/
theorem codeTokens_behind (models : List Model) :
    codeTokens (String.join (models.map fun m => "\n" ++ m.codeText)).toList =
      some (models.flatMap fun m => stepTokens m.code.steps) := by
  induction models with
  | nil => rfl
  | cons m rest ih =>
      have hform : (String.join ((m :: rest).map fun m => "\n" ++ m.codeText)).toList =
          '\n' :: (rendered 0 m.code.steps ++
            (String.join (rest.map fun m => "\n" ++ m.codeText)).toList) := by
        simp [String.join_cons, Model.codeText]
      rw [hform, codeTokens_newline, Model.code_tokens_append, ih]
      rfl

/-- **What is read from the code of models**, with empty lines between them. -/
theorem read_joined {models : List Model} (h : ∀ m ∈ models, Succeeds m.code.outcome) :
    HostItem.read (Text.joinWith "\n" (models.map Model.codeText)) =
      some (models.flatMap fun m => m.host.items) := by
  have hparts : ∀ m ∈ models, HasItems m.host.items (stepTokens m.code.steps) := by
    intro m hm
    obtain ⟨summary, hok⟩ := h m hm
    exact Model.says_code summary hok
  have htokens : codeTokens (Text.joinWith "\n" (models.map Model.codeText)).toList =
      some (models.flatMap fun m => stepTokens m.code.steps) := by
    cases models with
    | nil => rfl
    | cons m rest =>
        have hform : (String.join ((m :: rest).map fun m => "\n" ++ m.codeText)).toList =
            '\n' :: (Text.joinWith "\n" ((m :: rest).map Model.codeText)).toList := by
          simp [Text.joinWith_cons, String.join_cons, Function.comp_def]
        rw [← codeTokens_newline, ← hform]
        exact codeTokens_behind (m :: rest)
  have hitems : (models.flatMap fun m => m.host.items).flatMap HostItem.tokens =
      models.flatMap fun m => stepTokens m.code.steps := by
    rw [List.flatMap_assoc]
    exact List.flatMap_congr fun m hm => (hparts m hm).1
  rw [HostItem.read, htokens, Option.bind_some, ← hitems]
  refine HostItem.readTokens_tokens fun i hi => ?_
  obtain ⟨m, hm, hown⟩ := List.mem_flatMap.mp hi
  exact (hparts m hm).2 i hown

section

variable {names : NameTable} {settings : Settings}

/-- **The structures of a file** that holds the models of a design are those of its modules. -/
theorem lowerDesign_structs (hpath : settings.modulePath = none) {modules : List Module}
    (h : Succeeds (lowerDesign names settings none modules).result) :
    ∃ lead code items, (lowerDesign names settings none modules).session.text = lead ++ code ∧
      lead ∈ ["", preambleText ++ "\n"] ∧ HostItem.read code = some items ∧
      HostItem.structNames items = modules.flatMap names.typesOf := by
  have hcodes : ∀ m ∈ modules, Succeeds (m.ownModel names).code.outcome ∧
      bodyText names settings m = (m.ownModel names).codeText := by
    intro m hm
    obtain ⟨summary, hsummary⟩ := lowerDesign_succeeds_iff.mp h m hm
    obtain ⟨hcode, htext⟩ := bodyText_of_inline hpath hsummary
    exact ⟨⟨summary, hcode⟩, htext⟩
  have hbodies : modules.map (bodyText names settings) =
      (modules.map (Module.ownModel names)).map Model.codeText := by
    rw [List.map_map]
    exact List.map_congr_left fun m hm => (hcodes m hm).2
  have hread := read_joined (List.forall_mem_map.mpr fun m hm => (hcodes m hm).1)
  rw [← hbodies] at hread
  have hstructs : HostItem.structNames
      ((modules.map (Module.ownModel names)).flatMap fun m => m.host.items) =
      modules.flatMap names.typesOf := by
    rw [HostItem.structNames, List.filterMap_flatMap, List.flatMap_map]
    exact List.flatMap_congr fun m _ => m.structNames_ownModel names
  by_cases hne : modules = []
  · subst hne
    exact ⟨"", "", [], rfl, List.mem_cons_self, rfl, rfl⟩
  · refine ⟨if settings.sharedPreamble then preambleText ++ "\n" else "", _, _, ?_, ?_, hread,
      hstructs⟩
    · rw [lowerDesign_text hne h, designText, hpath]
    · split <;> simp

end

/-! ### Types that are told apart -/

/-- The types of the models of two names are different. -/
@[mk_iff]
structure TypesApart (name name' : String) : Prop where
  units : ¬ HostName.Alike name name'
  /-- The model of the one is not the bundle of the other. -/
  bundle : (HostName.escape name).word ≠ (HostName.escape name').word ++ "Io"
  bundle' : (HostName.escape name').word ≠ (HostName.escape name).word ++ "Io"

instance (name name' : String) : Decidable (TypesApart name name') :=
  decidable_of_iff _ (typesApart_iff name name').symm

/-- A word is not what it becomes for the bundle of proxies. -/
private theorem ne_append_io (w : String) : w ≠ w ++ "Io" := by
  intro h
  have hlength := congrArg String.length h
  simp at hlength

/-- When the names of two models and their bundles are all different. -/
private theorem disjoint_words_iff {w w' : String} :
    List.Disjoint [w, w ++ "Io"] [w', w' ++ "Io"] ↔
      w ≠ w' ∧ w ≠ w' ++ "Io" ∧ w' ≠ w ++ "Io" := by
  have hends : w ++ "Io" = w' ++ "Io" ↔ w = w' := String.append_left_inj _
  simp only [List.disjoint_cons_left, List.disjoint_nil_left, List.mem_cons, List.not_mem_nil,
    or_false, not_or, and_true, hends]
  constructor
  · rintro ⟨⟨hunits, hbundle⟩, hbundle', -⟩
    exact ⟨hunits, hbundle, Ne.symm hbundle'⟩
  · rintro ⟨hunits, hbundle, hbundle'⟩
    exact ⟨⟨hunits, hbundle⟩, Ne.symm hbundle', hunits⟩

/-- The types of two modules are told apart if their words are. -/
private theorem typesApart_iff_disjoint {name name' : String} : TypesApart name name' ↔
      List.Disjoint [(HostName.escape name).word, (HostName.escape name).word ++ "Io"]
        [(HostName.escape name').word, (HostName.escape name').word ++ "Io"] := by
  rw [disjoint_words_iff, typesApart_iff, HostName.alike_iff_word]

/-- **Distinct types.**  The types of some modules are different if those of any two are. -/
theorem nodup_typesOf_iff {names : NameTable} {modules : List Module} :
    (HostName.words (modules.flatMap names.typesOf)).Nodup ↔
      modules.Pairwise fun m m' => TypesApart (names.textOf m.name) (names.textOf m'.name) := by
  have hown : ∀ m ∈ modules, ((names.typesOf m).map HostName.word).Nodup := by
    intro m _
    simp [NameTable.typesOf, HostName.plain, ne_append_io]
  rw [HostName.words, List.map_flatMap, List.nodup_flatMap]
  simp only [typesApart_iff_disjoint]
  exact and_iff_right hown

/-! ### Sub-units -/

/-- The fields for the sub-units of a module. -/
def Module.subunitFields (names : NameTable) (m : Module) : List HostField :=
  m.instances.map fun i => ⟨names.hostOf i.name, names.hostOf i.moduleName⟩

private theorem Module.subunitFields_suffix (names : NameTable) (name : String) (m : Module) :
    m.subunitFields names <:+ (m.model names name).fields := by
  unfold Model.fields
  refine List.IsSuffix.trans ?_ (List.suffix_cons _ _)
  refine List.IsSuffix.trans ?_ (List.suffix_cons _ _)
  exact List.suffix_append _ _

/-- **Sub-units** are the last fields of a model, each with the model of its module as its type. -/
theorem Session.emit_subunits {names : NameTable} {settings : Settings} {session : Session}
    {m : Module} {summary : Summary} (h : (session.emit names settings m).result = .ok summary) :
    ∃ (host : HostModel) (code : String), (session.emit names settings m).session.text =
        session.text ++ session.head settings (m.submodules names) ++ code ∧
      HostItem.read code = some host.items ∧ host.unit = names.hostOf m.name ∧
      m.subunitFields names <:+ host.fields := by
  obtain ⟨name, hname, -, hcode, htext⟩ := Session.emit_code h
  exact ⟨_, _, htext, Model.read_code hcode _, (Model.host_declares hname hcode).unit,
    m.subunitFields_suffix names name⟩

/-! ### Distinct types -/

/-- **Distinct types for distinct modules.**  If the models of a design stand in one file, its
structures are the types of its modules, and they are different if and only if the types of any two
modules are.  Two sub-units of a module have the same type if and only if the names of their modules
are alike. -/
theorem host_types_distinct_iff (names : NameTable) :
    (∀ (settings : Settings) (modules : List Module), settings.modulePath = none →
      Succeeds (lowerDesign names settings none modules).result →
      ∃ lead code items, (lowerDesign names settings none modules).session.text = lead ++ code ∧
        lead ∈ ["", preambleText ++ "\n"] ∧ HostItem.read code = some items ∧
        HostItem.structNames items = modules.flatMap names.typesOf ∧
        ((HostName.words (HostItem.structNames items)).Nodup ↔
          modules.Pairwise fun m m' =>
            TypesApart (names.textOf m.name) (names.textOf m'.name))) ∧
      ∀ (settings : Settings) (session : Session) (m : Module) (summary : Summary),
        (session.emit names settings m).result = .ok summary →
        ∃ (host : HostModel) (code : String), (session.emit names settings m).session.text =
            session.text ++ session.head settings (m.submodules names) ++ code ∧
          HostItem.read code = some host.items ∧ host.unit = names.hostOf m.name ∧
          m.subunitFields names <:+ host.fields ∧
          ∀ i ∈ m.instances, ∀ j ∈ m.instances,
            ((names.hostOf i.moduleName).word = (names.hostOf j.moduleName).word ↔
              HostName.Alike (names.textOf i.moduleName) (names.textOf j.moduleName)) := by
  constructor
  · intro settings modules hpath h
    obtain ⟨lead, code, items, htext, hlead, hread, hstructs⟩ := lowerDesign_structs hpath h
    refine ⟨lead, code, items, htext, hlead, hread, hstructs, ?_⟩
    rw [hstructs]
    exact nodup_typesOf_iff
  · intro settings session m summary h
    obtain ⟨host, code, htext, hread, hunit, hfields⟩ := Session.emit_subunits h
    exact ⟨host, code, htext, hread, hunit, hfields,
      fun i _ j _ => HostName.alike_iff_word.symm⟩

/-- A module with two sub-units and the modules of these, of which one is called by a keyword. -/
theorem host_types_distinct_iff_hierarchy :
    let names : NameTable := ⟨["top", "u", "v", "match", "match_"]⟩
    let top : Module :=
      { Module.empty ⟨0⟩ with
        items := [.subunit (.ofBindings ⟨1⟩ ⟨3⟩ []), .subunit (.ofBindings ⟨2⟩ ⟨4⟩ [])] }
    let modules : List Module := [top, .empty ⟨3⟩, .empty ⟨4⟩]
    Settings.standard.modulePath = none ∧
      Succeeds (lowerDesign names .standard none modules).result ∧
      (∃ lead code items, (lowerDesign names .standard none modules).session.text = lead ++ code ∧
        lead ∈ ["", preambleText ++ "\n"] ∧ HostItem.read code = some items ∧
        HostItem.structNames items = modules.flatMap names.typesOf ∧
        (HostName.words (HostItem.structNames items)).Nodup) ∧
      ((Session.start none).emit names .standard top).result = .ok ⟨"top", [], [], [], ["u", "v"]⟩ ∧
      ∃ (host : HostModel) (code : String),
        ((Session.start none).emit names .standard top).session.text =
          (Session.start none).text ++ (Session.start none).head .standard (top.submodules names) ++
            code ∧
        HostItem.read code = some host.items ∧ host.unit = .plain "top" ∧
        [⟨.plain "u", ⟨true, "match"⟩⟩, ⟨.plain "v", .plain "match_"⟩] <:+ host.fields := by
  intro names top modules
  obtain ⟨hdesign, hmodule⟩ := host_types_distinct_iff names
  have htop : (lowerModule names .standard top).result = .ok ⟨"top", [], [], [], ["u", "v"]⟩ :=
    lowerModule_result rfl
  have hfirst : (lowerModule names .standard (.empty ⟨3⟩)).result =
      .ok ⟨"match", [], [], [], []⟩ := lowerModule_result rfl
  have hsecond : (lowerModule names .standard (.empty ⟨4⟩)).result =
      .ok ⟨"match_", [], [], [], []⟩ := lowerModule_result rfl
  have hsucceeds : Succeeds (lowerDesign names .standard none modules).result := by
    rw [lowerDesign_succeeds_iff]
    simp [modules, htop, hfirst, hsecond]
  obtain ⟨lead, code, items, htext, hlead, hread, hstructs, hnodup⟩ :=
    hdesign .standard modules rfl hsucceeds
  obtain ⟨host, code', htext', hread', hunit, hfields, -⟩ := hmodule .standard _ _ _ htop
  have hapart : modules.Pairwise fun m m' =>
      TypesApart (names.textOf m.name) (names.textOf m'.name) := by decide
  have hunits : top.subunitFields names =
      [⟨.plain "u", ⟨true, "match"⟩⟩, ⟨.plain "v", .plain "match_"⟩] := by decide
  have hname : names.hostOf top.name = .plain "top" := by decide
  exact ⟨rfl, hsucceeds, ⟨lead, code, items, htext, hlead, hread, hstructs, hnodup.mpr hapart⟩,
    htop, host, code', htext', hread', hunit.trans hname, hunits ▸ hfields⟩

/-- Two modules whose names differ in a sign only, and a module that has a sub-unit of each. -/
theorem design_repeats_types :
    let names : NameTable := ⟨["top", "u", "v", "a$", "a_"]⟩
    let top : Module :=
      { Module.empty ⟨0⟩ with
        items := [.subunit (.ofBindings ⟨1⟩ ⟨3⟩ []), .subunit (.ofBindings ⟨2⟩ ⟨4⟩ [])] }
    let modules : List Module := [top, .empty ⟨3⟩, .empty ⟨4⟩]
    Settings.standard.modulePath = none ∧ (modules.map fun m => names.textOf m.name).Nodup ∧
      Succeeds (lowerDesign names .standard none modules).result ∧
      (∃ lead code items, (lowerDesign names .standard none modules).session.text = lead ++ code ∧
        lead ∈ ["", preambleText ++ "\n"] ∧ HostItem.read code = some items ∧
        HostItem.structNames items = modules.flatMap names.typesOf ∧
        ¬ (HostName.words (HostItem.structNames items)).Nodup) ∧
      ((Session.start none).emit names .standard top).result = .ok ⟨"top", [], [], [], ["u", "v"]⟩ ∧
      ∃ (host : HostModel) (code : String),
        ((Session.start none).emit names .standard top).session.text =
          (Session.start none).text ++ (Session.start none).head .standard (top.submodules names) ++
            code ∧
        HostItem.read code = some host.items ∧ host.unit = .plain "top" ∧
        [⟨.plain "u", .plain "a_"⟩, ⟨.plain "v", .plain "a_"⟩] <:+ host.fields := by
  intro names top modules
  have htop : (lowerModule names .standard top).result = .ok ⟨"top", [], [], [], ["u", "v"]⟩ :=
    lowerModule_result rfl
  have hfirst : (lowerModule names .standard (.empty ⟨3⟩)).result =
      .ok ⟨"a$", [], [], [], []⟩ := lowerModule_result rfl
  have hsecond : (lowerModule names .standard (.empty ⟨4⟩)).result =
      .ok ⟨"a_", [], [], [], []⟩ := lowerModule_result rfl
  have hsucceeds : Succeeds (lowerDesign names .standard none modules).result := by
    rw [lowerDesign_succeeds_iff]
    simp [modules, htop, hfirst, hsecond]
  obtain ⟨lead, code, items, htext, hlead, hread, hstructs⟩ := lowerDesign_structs rfl hsucceeds
  obtain ⟨host, code', htext', hread', hunit, hfields⟩ := Session.emit_subunits htop
  have hnames : (modules.map fun m => names.textOf m.name).Nodup := by decide
  have hrepeated : ¬ (HostName.words (modules.flatMap names.typesOf)).Nodup := by decide
  have hunits : top.subunitFields names =
      [⟨.plain "u", .plain "a_"⟩, ⟨.plain "v", .plain "a_"⟩] := by decide
  have hname : names.hostOf top.name = .plain "top" := by decide
  exact ⟨rfl, hnames, hsucceeds,
    ⟨lead, code, items, htext, hlead, hread, hstructs, hstructs ▸ hrepeated⟩,
    htop, host, code', htext', hread', hunit.trans hname, hunits ▸ hfields⟩

end HdlSim
