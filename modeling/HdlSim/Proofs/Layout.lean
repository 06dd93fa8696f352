import HdlSim.Proofs.Commands
import HdlSim.Proofs.Mirror

/-!
# The lines of a model

Which lines the parts of a model consist of.  Each of them is a single line
(`Model.Writes.oneLine_parts`), and most of them are `Tidy`: they are none of the few by which a
simulator gets to know the model (`Model.Writes.tidy`).
-/

namespace HdlSim

open Text

namespace Script

variable {α : Type} {P : Line → Prop}

/-- Every line that the script writes has the property. -/
def Only (P : Line → Prop) (s : Script α) : Prop := ∀ l ∈ writtenLines s.steps, P l

/-- What holds of every step that writes holds of the lines. -/
theorem Made.only {T : Step → Prop} {s : Script α} (h : Made T 0 0 s)
    (hT : ∀ c, T (.write c) → P c.written) : Only P s :=
  (h.each hT).written fun _ hc => hc

/-- A script made of steps that write certain lines writes only such lines. -/
theorem only_of_made {s : Script α} (h : Made (Step.Writes fun c => P c.written) 0 0 s) :
    Only P s :=
  h.only fun _ hc => hc

end Script

open Script

/-- A line that begins in a way no mark does. -/
theorem Line.tidy_of_form {marks : List String} {chars : List (List Char)} {l : Line}
    {front : List Char} (hmarks : marks = chars.map String.ofList)
    (hfront : l.front = String.ofList front)
    (hdiffer : (front.head?.any (fun c => !isBlank c) &&
      chars.all fun word => word.take front.length != front.take word.length) = true)
    (hparts : ∀ part ∈ l.parts, OneLine part) : l.Tidy marks := by
  refine Line.tidy_of_front _ hfront ?_ hparts
  subst hmarks
  simpa [isFlush, differ] using hdiffer

/-- An empty line avoids all marks. -/
theorem tidy_blank : (Line.verbatim "").Tidy functionMarks := by
  refine ⟨by decide, ?_⟩
  decide

/-- The lines of a documentation are comments, whatever they say. -/
theorem only_doc (mark : CommentMark) (doc : Option String) :
    Only (Line.Tidy functionMarks) (Script.doc mark doc) :=
  only_of_made (made_doc (fun text htext => Line.tidy_of_front "//" rfl (by decide)
    (by simpa [Command.written, Line.parts] using htext)) doc)

/-! ### Statements -/

/-- The proxy with which the line for an assignment begins. -/
def Line.proxy? : Line → Option HostExpr
  | .write proxy _ => some proxy
  | .writeAt proxy _ _ => some proxy
  | .writeSlice proxy _ _ _ => some proxy
  | .writeInvalid proxy => some proxy
  | _ => none

/-- A line that begins with a proxy begins with its text. -/
theorem Line.proxy_isPrefix {l : Line} {p : HostExpr} (h : l.proxy? = some p) :
    p.text.toList <+: l.text.toList := by
  cases l with
  | write | writeAt | writeSlice | writeInvalid =>
      obtain rfl := Option.some.inj h
      unfold Line.text
      simp only [String.toList_append, List.append_assoc, List.prefix_append]
  | _ => cases h

namespace Site

/-- In a process the proxy of a signal is a field of the bundle of proxies. -/
theorem proxyOf_process {s : Site} (hplace : s.place = .process) {n : Ident} {p : HostExpr}
    (h : s.proxyOf n = .ok p) :
    ∃ text, s.context.names.resolve? n = some text ∧ p = .field .proxies (.escape text) := by
  obtain ⟨-, href⟩ := proxyOf_eq_ok_iff.mp h
  cases href with
  | inConstructor hother _ => simp [hplace] at hother
  | inProcess _ hname => exact ⟨_, hname, rfl⟩

/-- A proxy is one line. -/
theorem oneLine_proxyOf {s : Site} {n : Ident} {p : HostExpr} (h : s.proxyOf n = .ok p) :
    OneLine p.text :=
  (proxyOf_eq_ok_iff.mp h).2.operand.oneLine

/-- A value is one line. -/
theorem oneLine_value {s : Site} {e : Expr} {v : HostExpr} (h : s.value e = .ok v) :
    OneLine v.text :=
  (value_mirrors h).operand.oneLine

/-- Inside of a process, a proxy is a field of the bundle. -/
theorem isPrefix_proxyOf {s : Site} (hplace : s.place = .process) {n : Ident} {p : HostExpr}
    (h : s.proxyOf n = .ok p) : "self.io.".toList <+: p.text.toList := by
  obtain ⟨text, -, rfl⟩ := proxyOf_process hplace h
  unfold HostExpr.proxies HostExpr.text HostExpr.text HostExpr.text
  simp [HostName.text, HostName.plain]

/-- The parts of the lines of statements are one line each. -/
theorem Writes.oneLine_parts {s : Site} {c : Command Line} (h : s.Writes c) :
    ∀ part ∈ c.written.parts, OneLine part := by
  cases h with
  | write hp hv => simp [Command.written, Line.parts, oneLine_proxyOf hp, oneLine_value hv]
  | writeAt hp hk hv =>
      simp [Command.written, Line.parts, oneLine_proxyOf hp, oneLine_value hk, oneLine_value hv]
  | writeSlice hp hhigh hlow hv =>
      simp [Command.written, Line.parts, oneLine_proxyOf hp, oneLine_value hhigh,
        oneLine_value hlow, oneLine_value hv]
  | writeInvalid hp => simpa [Command.written, Line.parts] using oneLine_proxyOf hp
  | matchCond hv => simpa [Command.written, Line.parts] using oneLine_value hv
  | letSelector hv => simpa [Command.written, Line.parts] using oneLine_value hv
  | elseIfMatches hvs =>
      exact List.forall_mem_map.mpr fun v hv => ((values_mirror hvs).operands v hv).oneLine
  | _ => simp [Command.written, Line.parts]

section

variable {s : Site} (hplace : s.place = .process)

include hplace

/-- A line that begins with the proxy of a signal. -/
theorem tidy_of_proxyOf {n : Ident} {p : HostExpr} (hp : s.proxyOf n = .ok p) {l : Line}
    (hfront : p.text.toList <+: l.text.toList) (hparts : ∀ part ∈ l.parts, OneLine part) :
    l.Tidy functionMarks :=
  Line.tidy_of_isPrefix "self.io." ((isPrefix_proxyOf hplace hp).trans hfront) (by decide) hparts

/-- **Statements.**  In a process no line for a statement is marked. -/
theorem Writes.tidy {c : Command Line} (h : s.Writes c) : c.written.Tidy functionMarks := by
  have hmarks : functionMarks = [_, _, _, _].map String.ofList := rfl
  have hparts := h.oneLine_parts
  cases h with
  | write hp | writeAt hp | writeSlice hp | writeInvalid hp =>
      exact tidy_of_proxyOf hplace hp (Line.proxy_isPrefix rfl) hparts
  | _ => exact Line.tidy_of_form hmarks rfl rfl hparts

/-- **Statements** avoid all marks. -/
theorem only_statements (body : List Stmt) : Only (Line.Tidy functionMarks) (s.block body) :=
  (each_statements body).written fun _ hc => hc.tidy hplace

end

end Site

/-! ### Names -/

/-- The identifier for a name is one line. -/
theorem Context.oneLine_host {c : Context} {n : Ident} {host : HostName}
    (h : c.host n = .ok host) :
    OneLine host.text :=
  (Context.isProper_host h).oneLine

/-- The name of the model is one line. -/
theorem Context.oneLine_unit (c : Context) : OneLine c.unit.text := c.isProper_unit.oneLine

/-- The name of the bundle of proxies is one line. -/
private theorem Context.oneLine_io (c : Context) : OneLine c.io.text := c.isProper_io.oneLine

/-- A character of a name is not white space. -/
theorem Text.isBlank_of_isNameChar {c : Char} (h : isNameChar c = true) : isBlank c = false := by
  have hcases : (48 ≤ c.toNat ∧ c.toNat ≤ 57) ∨ (65 ≤ c.toNat ∧ c.toNat ≤ 90) ∨
      (97 ≤ c.toNat ∧ c.toNat ≤ 122) ∨ c.toNat = 95 ∨ c.toNat = 35 := by
    have halpha : c.isAlpha = (decide (65 ≤ c.val ∧ c.val ≤ 90) ||
        decide (97 ≤ c.val) && decide (c.val ≤ 122)) := rfl
    have hdigit : c.isDigit = (decide (48 ≤ c.val) && decide (c.val ≤ 57)) := rfl
    simp only [isNameChar, HostName.isWordChar, Char.isAlphanum, halpha, hdigit, Bool.or_eq_true,
      Bool.and_eq_true, decide_eq_true_eq, beq_iff_eq, UInt32.le_iff_toNat_le] at h
    rcases h with (((h | h) | h) | h) | h
    · exact .inr (.inl h)
    · exact .inr (.inr (.inl h))
    · exact .inl h
    · exact .inr (.inr (.inr (.inl (by rw [h]; rfl))))
    · exact .inr (.inr (.inr (.inr (by rw [h]; rfl))))
  have hfalse : ¬ isBlank c = true := by
    unfold isBlank
    simp only [Bool.or_eq_true, Bool.and_eq_true, decide_eq_true_eq, beq_iff_eq]
    omega
  simpa using hfalse

/-- A line that begins with a name, and goes on in a way that no mark does. -/
theorem Line.tidy_of_name {l : Line} {name : HostName} (hname : name.IsProper) {d : Char}
    {rest : List Char} (htext : l.text.toList = name.text.toList ++ d :: rest)
    (hd : isNameChar d = false) (hdot : d ≠ '.') (hspace : d ≠ ' ')
    (hparts : ∀ part ∈ l.parts, OneLine part) : l.Tidy unitMarks := by
  obtain ⟨hne, hall⟩ := Atom.name_text hname
  have hchars : ∀ c ∈ name.text.toList, isNameChar c = true := List.all_eq_true.mp hall
  have hflush : isFlush name.text = true := by
    obtain ⟨c, cs, hform⟩ := List.exists_cons_of_ne_nil hne
    have hc := isBlank_of_isNameChar (hchars c (by simp [hform]))
    simp [isFlush, hform, hc]
  have hfront : name.text.toList <+: l.text.toList := ⟨_, htext.symm⟩
  refine ⟨Line.oneLine_of_parts hparts, fun word hword => ?_⟩
  refine Line.begins_code_eq_false hfront hflush fun hprefix => ?_
  rw [htext] at hprefix
  rcases List.mem_cons.mp hword with rfl | hword
  · have hcut : '.' :: "model.set_".toList <+: d :: rest :=
      eq_of_isPrefix_word "self".toList (by decide) (by decide) hchars hd hprefix
    exact hdot (List.cons_prefix_cons.mp hcut).1.symm
  · obtain rfl := List.mem_singleton.mp hword
    have hcut : ' ' :: "run_process".toList <+: d :: rest :=
      eq_of_isPrefix_word "fn".toList (by decide) (by decide) hchars hd hprefix
    exact hspace (List.cons_prefix_cons.mp hcut).1.symm

/-- The value of a field avoids the marks of units. -/
theorem tidy_fieldInit {name : HostName} (hname : name.IsProper) :
    (Line.fieldInit name).Tidy unitMarks := by
  have htext : (Line.fieldInit name).text.toList = name.text.toList ++ ',' :: [] := by
    unfold Line.text
    simp
  exact Line.tidy_of_name hname htext (by decide) (by decide) (by decide)
    (by simpa [Line.parts] using hname.oneLine)

/-- Starting a sub-unit is no registration, whatever its name. -/
theorem tidy_initUnit {unit : HostName} (hunit : unit.IsProper) :
    (Line.initUnit unit).Tidy functionMarks := by
  have hparts : ∀ part ∈ (Line.initUnit unit).parts, OneLine part := by
    simpa [Line.parts] using hunit.oneLine
  have hchars : ∀ c ∈ unit.text.toList, isNameChar c = true :=
    List.all_eq_true.mp (Atom.name_text hunit).2
  have hothers : (Line.initUnit unit).Tidy ["fn run_process", "impl ", "pub fn "] :=
    Line.tidy_of_front "self." rfl (by decide) hparts
  refine ⟨hothers.oneLine, fun word hword => ?_⟩
  rcases List.mem_cons.mp hword with rfl | hword
  -- A unit may well be called `model`, but its line goes on with a word that is no registration.
  · have hfront : "self.".toList <+: (Line.initUnit unit).text.toList :=
      (Line.initUnit unit).front_isPrefix
    refine Line.begins_code_eq_false hfront (by decide) fun hprefix => ?_
    have htext : (Line.initUnit unit).text.toList =
        "self.".toList ++ (unit.text.toList ++ '.' :: "init_body();".toList) := by
      unfold Line.text
      simp
    rw [htext] at hprefix
    have hname : "model".toList ++ '.' :: "set_".toList <+:
        unit.text.toList ++ '.' :: "init_body();".toList :=
      (List.prefix_append_right_inj "self.".toList).mp hprefix
    have hcut := eq_of_isPrefix_word "model".toList (by decide) (by decide) hchars (by decide) hname
    exact absurd hcut (by decide)
  · exact hothers.unmarked word hword

/-! ### Declared types -/

/-- A call of a function of the runtime avoids the marks of units. -/
theorem tidy_result_call {f : HostName} {args : List HostExpr} (hf : f.IsProper)
    (h : OneLine (HostExpr.call f args).text) : (Line.result (.call f args)).Tidy unitMarks := by
  have htext : (Line.result (.call f args)).text.toList =
      f.text.toList ++ '(' :: ((commaList (HostExpr.texts args)).toList ++ [')']) := by
    change (HostExpr.call f args).text.toList = _
    unfold HostExpr.text
    simp
  exact Line.tidy_of_name hf htext (by decide) (by decide) (by decide)
    (by simpa [Line.parts] using h)

/-- A call of a function of the model avoids the marks of units. -/
private theorem tidy_result_selfCall {f : HostName} (hf : f.IsProper) :
    (Line.result (.selfCall f)).Tidy unitMarks := by
  have hfront : "Self::".toList <+: (Line.result (.selfCall f)).text.toList := by
    change _ <+: (HostExpr.selfCall f).text.toList
    unfold HostExpr.text
    simp only [String.toList_append, List.append_assoc, List.prefix_append]
  refine Line.tidy_of_isPrefix "Self::" hfront (by decide) ?_
  simpa [Line.parts] using (HostExpr.Operand.selfCall hf).oneLine

/-- The value of a type avoids the marks of units. -/
theorem TypeMirrors.tidy_result {s : Site} {type : Ty} {v : HostExpr}
    (h : TypeMirrors s type v) :
    (Line.result v).Tidy unitMarks := by
  have hone := h.operand.oneLine
  cases h with
  | bits width signed => exact tidy_result_call (by decide) hone
  | array _ _ => exact tidy_result_call (by decide) hone
  | own _ _ => exact tidy_result_selfCall (HostName.escape_isProper _)
  | foreign _ _ => exact tidy_result_call (HostName.escape_isProper _) hone

/-- The value of an enumeration avoids the marks of units. -/
theorem Site.tidy_enumValue {s : Site} {name : String} {members : List EnumMember}
    {v : HostExpr} (h : s.enumValue name members = .ok v) : (Line.result v).Tidy unitMarks := by
  obtain ⟨names, -, hv⟩ := Except.bind_eq_ok_iff.mp h
  obtain rfl := Except.pure_eq_ok_iff.mp hv
  refine tidy_result_call (by decide) ?_
  have hnames : OneLine (commaList (names.map quote)) :=
    oneLine_commaList (List.forall_mem_map.mpr fun label _ => oneLine_quote label)
  have hargs : OneLine (commaList (HostExpr.texts [.str name, .strs names])) := by
    have hstrs : OneLine (HostExpr.strs names).text := by
      unfold HostExpr.text
      simp +decide [hnames]
    refine oneLine_commaList ?_
    rw [HostExpr.texts_eq_map]
    simpa using ⟨oneLine_quote name, hstrs⟩
  unfold HostExpr.text
  simp +decide [hargs]

/-- The value of a type that is declared avoids the marks of units. -/
theorem Site.tidy_typeItemValue {s : Site} {t : TypeItem} {v : HostExpr}
    (h : s.typeItemValue t = .ok v) : (Line.result v).Tidy unitMarks := by
  obtain ⟨name, -, h⟩ := Except.bind_eq_ok_iff.mp h
  cases t with
  | enum d => exact tidy_enumValue h
  | array d => exact (typeValue_mirrors h).tidy_result
  | synonym d =>
      dsimp only at h
      split at h
      · exact tidy_enumValue h
      · simp at h
      · exact (typeValue_mirrors h).tidy_result
      · simp at h

/-! ### Models -/

private theorem Site.oneLine_initText {s : Site} {e : Option Expr} {init : Option HostExpr}
    (h : s.initValue e = .ok init) : OneLine (initText init) := by
  cases init with
  | none => decide
  | some v =>
      obtain ⟨x, hx⟩ := exists_of_initValue h v rfl
      simp +decide [initText, oneLine_value hx]

private theorem Site.oneLine_hostTriggers {s : Site} {ts : List Trigger} {hosts : List HostTrigger}
    (h : s.hostTriggers ts = .ok hosts) : ∀ text ∈ hosts.map HostTrigger.text, OneLine text := by
  refine List.forall_mem_map.mpr fun host hhost => ?_
  obtain ⟨t, -, ht⟩ := Except.exists_of_mem_mapM h hhost
  obtain ⟨p, hp, ht⟩ := Except.bind_eq_ok_iff.mp ht
  obtain rfl := Except.pure_eq_ok_iff.mp ht
  have hproxy := oneLine_proxyOf hp
  unfold HostTrigger.text
  cases t.edge <;> simp +decide [TriggerEdge.maker, hproxy]

namespace Model

variable {m : Model}

/-- The parts of the lines of a model are one line each. -/
theorem Writes.oneLine_parts {c : Command Line} (h : m.Writes c) :
    ∀ part ∈ c.written.parts, OneLine part := by
  have hunit := m.context.oneLine_unit
  have hio := m.context.oneLine_io
  cases h with
  | comment htext => simpa [Command.written, Line.parts] using htext
  | unitStruct | implBlock | simUnitImpl | noProcess =>
      simpa [Command.written, Line.parts] using hunit
  | ioStruct | ioValue | emptyIoValue => simpa [Command.written, Line.parts] using hio
  | ioField => simp +decide [Command.written, Line.parts, hio]
  | constantField hhost | proxyField hhost =>
      simp +decide [Command.written, Line.parts, Context.oneLine_host hhost]
  | unitField hhost htype | letUnit hhost htype =>
      simp [Command.written, Line.parts, Context.oneLine_host hhost, Context.oneLine_host htype]
  | typeFn hhost | fieldInit hhost | dispatch _ hhost | initUnit _ hhost | processFn hhost =>
      simpa [Command.written, Line.parts] using Context.oneLine_host hhost
  | @result _ _ v hv =>
      have hline : OneLine v.text := (Site.tidy_typeItemValue hv).oneLine
      simpa [Command.written, Line.parts] using hline
  | letConst hhost hv =>
      simp [Command.written, Line.parts, Context.oneLine_host hhost, Site.oneLine_value hv]
  | letProxy hhost htype hinit =>
      have htypeLine := (Site.typeValue_mirrors htype).operand.oneLine
      simp [Command.written, Line.parts, Context.oneLine_host hhost, htypeLine,
        Site.oneLine_initText hinit]
  | connect _ hunit hsignal hport =>
      simp [Command.written, Line.parts, Site.oneLine_proxyOf hsignal, Context.oneLine_host hunit,
        Context.oneLine_host hport]
  | setInterfaces hhosts =>
      have hproper := Context.isProper_hosts hhosts
      refine List.forall_mem_map.mpr (List.forall_mem_map.mpr fun n hn => ?_)
      exact (operand_method (operand_proxy (hproper n hn)) (by decide) (by simp)).oneLine
  | setUnits hhosts =>
      have hproper := Context.isProper_hosts hhosts
      refine List.forall_mem_map.mpr (List.forall_mem_map.mpr fun n hn => ?_)
      exact (operand_method (operand_unitModel (hproper n hn)) (by decide) (by simp)).oneLine
  | setOutputs hps =>
      refine List.forall_mem_map.mpr (List.forall_mem_map.mpr fun p hp => ?_)
      obtain ⟨n, -, hn⟩ := Except.exists_of_mem_mapM hps hp
      exact (operand_method (Site.operand_proxyOf hn) (by decide) (by simp)).oneLine
  | setSensitivity hhosts => exact Site.oneLine_hostTriggers hhosts
  | statement hc => exact hc.oneLine_parts
  | _ => simp +decide [Command.written, Line.parts]

/-- **The lines of a model.**  Only those by which a simulator gets to know it are marked. -/
theorem Writes.tidy {c : Command Line} (h : m.Writes c) (hline : c.written.registers = false) :
    c.written.Tidy unitMarks := by
  have hmarks : unitMarks = [_, _].map String.ofList := rfl
  have hparts := h.oneLine_parts
  cases h with
  | blank => exact tidy_blank.unit
  | result hv => exact Site.tidy_typeItemValue hv
  | modelInit => exact tidy_fieldInit (by decide)
  | fieldInit hhost => exact tidy_fieldInit (Context.isProper_host hhost)
  | initUnit _ hunit => exact (tidy_initUnit (Context.isProper_host hunit)).unit
  | statement hc => exact (hc.tidy rfl).unit
  | setInterfaces | setProcesses | setUnits | setSensitivity | setOutputs | runProcessFn
  | dispatch => cases hline
  | _ => exact Line.tidy_of_form hmarks rfl rfl hparts

/-- What registers nothing is not marked. -/
theorem only_unregistered {α : Type} {s : Script α} (h : Made (m.Takes true false true) 0 0 s) :
    Only (Line.Tidy unitMarks) s :=
  h.only fun c hc => by
    cases hc with
    | plain hc hplain => exact hc.tidy (Command.registers_of_isPlain hplain)
    | blank _ => exact tidy_blank.unit
    | register _ _ hregisters => cases hregisters

/-- The names of imported modules are one line each. -/
theorem importNames_oneLine {names : List HostName} (h : m.importNames = .ok names) :
    ∀ name ∈ names, OneLine name.text := by
  obtain ⟨hosts, hhosts, h⟩ := Except.bind_eq_ok_iff.mp h
  obtain rfl := Except.pure_eq_ok_iff.mp h
  intro name hname
  exact (Context.isProper_hosts hhosts name (List.mem_eraseDups.mp hname)).oneLine

/-- Imports avoid the marks of units, if the path is one line. -/
theorem only_imports {settings : Settings} (hpath : ∀ path ∈ settings.modulePath, OneLine path) :
    Only (Line.Tidy unitMarks) (m.imports settings) := by
  refine only_of_made (made_imports (fun path hmem names hnames name hname => ?_) tidy_blank.unit)
  have hname : OneLine name.text := importNames_oneLine hnames name hname
  exact Line.tidy_of_front "use " rfl (by decide)
    (by simp [Command.written, Line.parts, hpath path hmem, hname])

end Model

/-- The lines of the preamble. -/
theorem tidy_preamble : ∀ text ∈ preamble, (Line.verbatim text).Tidy unitMarks := by
  -- The characters of a text are compared faster where they are given as a list.
  obtain ⟨marks, lines, hmarks, hchars, hlines⟩ : ∃ marks lines : List (List Char),
      unitMarks = marks.map String.ofList ∧ preamble = lines.map String.ofList ∧
        ∀ line ∈ lines, '\n' ∉ line ∧ ∀ mark ∈ marks, mark.isPrefixOf (trim line) = false :=
    ⟨[_, _], [_, _, _, _, _, _, _, _], rfl, rfl, by decide⟩
  rw [hchars, hmarks]
  refine List.forall_mem_map.mpr fun line hline => ?_
  obtain ⟨hone, hbegins⟩ := hlines line hline
  refine ⟨?_, List.forall_mem_map.mpr fun mark hmark => ?_⟩
  · show OneLine (String.ofList line)
    rwa [OneLine, String.toList_ofList]
  · have hcode : (Line.verbatim (String.ofList line)).code.toList =
        trim (String.ofList line).toList := String.toList_ofList
    rw [begins, hcode, String.toList_ofList, String.toList_ofList]
    exact hbegins mark hmark

end HdlSim
