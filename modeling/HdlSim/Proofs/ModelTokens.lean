import HdlSim.Proofs.Commands
import HdlSim.Proofs.Items
import HdlSim.Proofs.LineTokens
import HdlSim.Proofs.Nesting

/-!
# The tokens of a model

Every line of a model is legible (`Model.Writes.legible`), so that the code of a model has the
tokens of its lines.  The braces in a line are those of the block that it begins or ends
(`Model.Writes.braced`), so braces match wherever blocks do (`balanced_of_framed`).
-/

namespace HdlSim

open Text Script HostExpr

/-! ### Values -/

/-- No tokens have no braces. -/
theorem flat_nil : Flat [] := by simp [Flat]

/-- One more token that is no brace. -/
@[simp] theorem flat_cons {t : Token} {ts : List Token} :
    Flat (t :: ts) ↔ (t ≠ .sign '\x7b' ∧ t ≠ .sign '\x7d') ∧ Flat ts :=
  List.forall_mem_cons

/-- Lists without braces, with commas between them. -/
theorem flat_commaTokens {tss : List (List Token)} (h : ∀ ts ∈ tss, Flat ts) :
    Flat (commaTokens tss) :=
  forall_mem_joinTokens (by decide) h

/-- A value that can stand in a line: it has its tokens, and there are no braces among them. -/
structure HostExpr.Inline (e : HostExpr) : Prop where
  spelled : e.IsSpelled
  flat : Flat e.tokens

/-- An operand stands in a line. -/
theorem HostExpr.Operand.inline {e : HostExpr} (h : Operand e) : e.Inline :=
  ⟨h.spelled, h.derives.plain.flat⟩

/-- A copy of an operand stands in a line. -/
theorem inline_clone {e : HostExpr} (h : Operand e) :
    (HostExpr.method e "clone" []).Inline :=
  (operand_method h (by decide) (by simp)).inline

/-- Expressions that stand in a line have no braces. -/
theorem flat_tokenLists {es : List HostExpr} (h : ∀ e ∈ es, e.Inline) :
    ∀ ts ∈ tokenLists es, Flat ts := by
  rw [tokenLists_eq_map]
  exact List.forall_mem_map.mpr fun e he => (h e he).flat

namespace Site

variable {s : Site}

/-- The value of an expression stands in a line. -/
theorem inline_value {e : Expr} {v : HostExpr} (h : s.value e = .ok v) : v.Inline :=
  (value_mirrors h).operand.inline

private theorem inline_values {es : List Expr} {vs : List HostExpr} (h : s.values es = .ok vs) :
    ∀ v ∈ vs, v.Inline :=
  fun v hv => ((values_mirror h).operands v hv).inline

/-- The value of a type stands in a line. -/
theorem inline_typeValue {type : Ty} {v : HostExpr} (h : s.typeValue type = .ok v) :
    v.Inline :=
  (typeValue_mirrors h).operand.inline

/-- A proxy stands in a line. -/
theorem inline_proxyOf {n : Ident} {p : HostExpr} (h : s.proxyOf n = .ok p) : p.Inline :=
  (operand_proxyOf h).inline

/-- An initial value stands in a line. -/
theorem inline_initValue {e : Option Expr} {init : Option HostExpr}
    (h : s.initValue e = .ok init) : ∀ v ∈ init, v.Inline := by
  intro v hv
  obtain ⟨x, hx⟩ := exists_of_initValue h v hv
  exact inline_value hx

/-- Copies of proxies stand in a line. -/
theorem inline_clones {ns : List Ident} {ps : List HostExpr} (h : s.proxiesOf ns = .ok ps) :
    ∀ v ∈ ps.map fun p => HostExpr.method p "clone" [], v.Inline := by
  refine List.forall_mem_map.mpr fun p hp => ?_
  obtain ⟨n, -, hn⟩ := Except.exists_of_mem_mapM h hp
  exact inline_clone (operand_proxyOf hn)

/-- The proxies of triggers stand in a line. -/
theorem inline_hostTriggers {ts : List Trigger} {hosts : List HostTrigger}
    (h : s.hostTriggers ts = .ok hosts) : ∀ t ∈ hosts, t.proxy.Inline := by
  intro host hhost
  obtain ⟨t, -, ht⟩ := Except.exists_of_mem_mapM h hhost
  obtain ⟨p, hp, ht⟩ := Except.bind_eq_ok_iff.mp ht
  obtain rfl := Except.pure_eq_ok_iff.mp ht
  exact inline_proxyOf hp

/-- The tokens of the value that defines an enumeration. -/
theorem enumCall_tokens (name : String) (labels : List String) :
    (HostExpr.runtime "define_enum3t" [.str name, .strs labels]).tokens =
      [Token.word "define_enum3t", .sign '(', .str name, .sign ',', .sign '&', .sign '['] ++
        commaTokens (labels.map fun label => [.str label]) ++ [Token.sign ']', .sign ')'] := by
  simp [HostExpr.runtime, tokens, tokenLists, commaTokens, joinTokens, Token.str, HostName.text,
    HostName.plain]

private theorem inline_enumCall (name : String) (labels : List String) :
    (HostExpr.runtime "define_enum3t" [.str name, .strs labels]).Inline := by
  have hlabels : Spelled (commaList (labels.map quote))
      (commaTokens (labels.map fun label => [.str label])) :=
    spelled_commaList fun label _ => spelled_quote label
  have hname := (closed_fixed "define_enum3t(" [.word "define_enum3t", .sign '(']).slot
    (spelled_quote name) ", &[" [.sign ',', .sign '&', .sign '[']
  have hcall := (hname.slot hlabels "])" [.sign ']', .sign ')']).spelled
  have htext : "define_enum3t(" ++ quote name ++ ", &[" ++ commaList (labels.map quote) ++ "])" =
      (HostExpr.runtime "define_enum3t" [.str name, .strs labels]).text := by
    apply String.toList_inj.mp
    simp [HostExpr.runtime, text, texts, commaList, joinWith, HostName.text, HostName.plain]
  rw [htext] at hcall
  refine ⟨hcall.congr ?_, ?_⟩
  · rw [enumCall_tokens]
    rfl
  · rw [enumCall_tokens]
    have hflat : Flat (commaTokens (labels.map fun label => [.str label])) :=
      flat_commaTokens (List.forall_mem_map.mpr fun label _ => by simp [flat_nil])
    simp [flat_append, hflat, flat_nil]

/-- The value of a type that is declared stands in a line. -/
theorem inline_typeItemValue {t : TypeItem} {v : HostExpr} (h : s.typeItemValue t = .ok v) :
    v.Inline := by
  rcases typeItemValue_mirrors h with ⟨name, labels, -, -, rfl⟩ | ⟨-, type, hmirror⟩
  · exact inline_enumCall name labels
  · exact hmirror.operand.inline

/-! ### Legible lines -/

/-- The lines of statements are legible. -/
theorem Writes.legible {c : Command Line} (h : s.Writes c) : c.written.Legible := by
  cases h with
  | write hp hv => exact ⟨(inline_proxyOf hp).spelled, (inline_value hv).spelled⟩
  | writeAt hp hk hv =>
      exact ⟨(inline_proxyOf hp).spelled, (inline_value hk).spelled, (inline_value hv).spelled⟩
  | writeSlice hp hhigh hlow hv =>
      exact ⟨(inline_proxyOf hp).spelled, (inline_value hhigh).spelled, (inline_value hlow).spelled,
        (inline_value hv).spelled⟩
  | writeInvalid hp => exact (inline_proxyOf hp).spelled
  | matchCond hv => exact (inline_value hv).spelled
  | letSelector hv => exact (inline_value hv).spelled
  | elseIfMatches hvs => exact fun v hv => (inline_values hvs v hv).spelled
  | _ => exact trivial

end Site

namespace Model

variable {m : Model}

/-- Copies of the proxies stand in a line. -/
theorem inline_interfaces {ns : List Ident} {hosts : List HostName}
    (h : m.context.hosts ns = .ok hosts) :
    ∀ v ∈ hosts.map fun n => HostExpr.method (.field .proxies n) "clone" [], v.Inline :=
  List.forall_mem_map.mpr fun _ hn => inline_clone (operand_proxy (Context.isProper_hosts h _ hn))

/-- Copies of the models of instances stand in a line. -/
theorem inline_units {ns : List Ident} {hosts : List HostName}
    (h : m.context.hosts ns = .ok hosts) :
    ∀ v ∈ hosts.map fun n => HostExpr.method (.field (.field .self n) (.plain "model")) "clone" [],
      v.Inline :=
  List.forall_mem_map.mpr fun _ hn =>
    inline_clone (operand_unitModel (Context.isProper_hosts h _ hn))

/-- **Every line of a model is legible.** -/
theorem Writes.legible {c : Command Line} (h : m.Writes c) : c.written.Legible := by
  have hunit := m.context.isProper_unit
  have hio := m.context.isProper_io
  cases h with
  | blank => exact rfl
  | comment htext => exact htext
  | unitStruct | implBlock | simUnitImpl | noProcess => exact hunit
  | ioStruct | ioValue | emptyIoValue => exact hio
  | modelField => exact ⟨by decide, by decide⟩
  | ioField => exact ⟨by decide, hio⟩
  | constantField hhost => exact ⟨Context.isProper_host hhost, by decide⟩
  | proxyField hhost => exact ⟨Context.isProper_host hhost, by decide⟩
  | unitField hhost htype => exact ⟨Context.isProper_host hhost, Context.isProper_host htype⟩
  | typeFn hhost => exact Context.isProper_host hhost
  | result hv => exact (Site.inline_typeItemValue hv).spelled
  | letConst hhost hv => exact ⟨Context.isProper_host hhost, (Site.inline_value hv).spelled⟩
  | letProxy hhost htype hinit =>
      exact ⟨Context.isProper_host hhost, (Site.inline_typeValue htype).spelled,
        fun v hv => (Site.inline_initValue hinit v hv).spelled⟩
  | letUnit hhost htype => exact ⟨Context.isProper_host hhost, Context.isProper_host htype⟩
  | modelInit => exact (by decide : (HostName.plain "model").IsProper)
  | fieldInit hhost => exact Context.isProper_host hhost
  | connect hi hunit hsignal hport =>
      exact ⟨(Site.inline_proxyOf hsignal).spelled, Context.isProper_host hunit,
        Context.isProper_host hport⟩
  | setInterfaces hhosts => exact fun v hv => (inline_interfaces hhosts v hv).spelled
  | setUnits hhosts => exact fun v hv => (inline_units hhosts v hv).spelled
  | setSensitivity hhosts => exact fun t ht => (Site.inline_hostTriggers hhosts t ht).spelled
  | setOutputs hps => exact fun v hv => (Site.inline_clones hps v hv).spelled
  | initUnit hi hunit => exact Context.isProper_host hunit
  | dispatch hp hhost => exact Context.isProper_host hhost
  | processFn hhost => exact Context.isProper_host hhost
  | statement hc => exact hc.legible
  | _ => exact trivial

end Model

/-! ### Braces -/

@[simp] theorem braceDepth_nil (depth : Nat) : braceDepth depth [] = some depth := by
  rw [braceDepth]

@[simp] theorem braceDepth_word (depth : Nat) (w : String) (ts : List Token) :
    braceDepth depth (.word w :: ts) = braceDepth depth ts :=
  braceDepth_cons (by simp) (by simp) depth ts

@[simp] theorem braceDepth_str (depth : Nat) (text : String) (ts : List Token) :
    braceDepth depth (.str text :: ts) = braceDepth depth ts :=
  braceDepth_cons (by simp) (by simp) depth ts

@[simp] theorem braceDepth_quoted (depth : Nat) (body : List Char) (ts : List Token) :
    braceDepth depth (.quoted body :: ts) = braceDepth depth ts :=
  braceDepth_cons (by simp) (by simp) depth ts

/-- An opening brace counts. -/
@[simp] theorem braceDepth_open (depth : Nat) (ts : List Token) :
    braceDepth depth (.sign '\x7b' :: ts) = braceDepth (depth + 1) ts := by
  rw [braceDepth]

/-- A closing brace takes one back. -/
@[simp] theorem braceDepth_close (depth : Nat) (ts : List Token) :
    braceDepth (depth + 1) (.sign '\x7d' :: ts) = braceDepth depth ts := by
  rw [braceDepth]

/-- No other sign counts. -/
@[simp] theorem braceDepth_sign (depth : Nat) {c : Char} (hopen : c ≠ '\x7b')
    (hclose : c ≠ '\x7d') (ts : List Token) :
    braceDepth depth (.sign c :: ts) = braceDepth depth ts :=
  braceDepth_cons (by simpa using hopen) (by simpa using hclose) depth ts

/-- Tokens without braces in front do not count. -/
theorem Flat.depth_append {ts : List Token} (h : Flat ts) (depth : Nat) (us : List Token) :
    braceDepth depth (ts ++ us) = braceDepth depth us := by
  rw [braceDepth_append, h.depth]
  rfl

/-- The braces of the line are those of the block that the command begins or ends. -/
def Command.Braced (c : Command Line) : Prop :=
  ∀ depth inner, c.depthAfter depth = some inner → braceDepth depth c.written.tokens = some inner

/-- A line whose braces match. -/
theorem braced_line {l : Line} (h : ∀ depth, braceDepth depth l.tokens = some depth) :
    Command.Braced (.line l) := by
  intro depth inner hdepth
  obtain rfl : depth = inner := Option.some.inj hdepth
  exact h depth

/-- A line that opens one brace. -/
theorem braced_enter {l : Line}
    (h : ∀ depth, braceDepth depth l.tokens = some (depth + 1)) :
    Command.Braced (.enter l) := by
  intro depth inner hdepth
  obtain rfl : depth + 1 = inner := Option.some.inj hdepth
  exact h depth

/-- A line that closes one brace. -/
theorem braced_leave {l : Line}
    (h : ∀ depth, braceDepth (depth + 1) l.tokens = some depth) :
    Command.Braced (.leave l) := by
  intro depth inner hdepth
  cases depth with
  | zero => cases hdepth
  | succ depth =>
      obtain rfl : depth = inner := Option.some.inj hdepth
      exact h depth

/-- A line that closes a brace and opens another. -/
theorem braced_turn {l : Line}
    (h : ∀ depth, braceDepth (depth + 1) l.tokens = some (depth + 1)) :
    Command.Braced (.turn l) := by
  intro depth inner hdepth
  cases depth with
  | zero => cases hdepth
  | succ depth =>
      obtain rfl : depth + 1 = inner := Option.some.inj hdepth
      exact h depth

/-- A call has no braces if its parts have none. -/
theorem flat_callTokens {receiver : List Token} {method : String} {args : List (List Token)}
    (hreceiver : Flat receiver) (hargs : ∀ ts ∈ args, Flat ts) :
    Flat (callTokens receiver method args) := by
  simp [callTokens, flat_append, hreceiver, flat_commaTokens hargs, flat_nil]

/-- The lines of statements open and close braces as their commands say. -/
theorem Site.Writes.braced {s : Site} {c : Command Line} (h : s.Writes c) : c.Braced := by
  cases h with
  | close => exact braced_leave fun depth => by simp [Line.tokens]
  | write hp hv =>
      refine braced_line (flat_callTokens (inline_proxyOf hp).flat ?_).depth
      simpa using (inline_value hv).flat
  | writeAt hp hk hv =>
      refine braced_line (flat_callTokens (inline_proxyOf hp).flat ?_).depth
      simpa using ⟨(inline_value hk).flat, (inline_value hv).flat⟩
  | writeSlice hp hhigh hlow hv =>
      refine braced_line (flat_callTokens (inline_proxyOf hp).flat ?_).depth
      simpa using ⟨(inline_value hhigh).flat, (inline_value hlow).flat, (inline_value hv).flat⟩
  | writeInvalid hp =>
      exact braced_line (flat_callTokens (inline_proxyOf hp).flat (by simp)).depth
  | matchCond hv =>
      exact braced_enter fun depth => by
        simp [Line.tokens, (inline_value hv).flat.depth_append]
  | condTrue | condFalse | condInvalid | bareBlock | ifSelectorInvalid =>
      exact braced_enter fun depth => by simp [Line.tokens, outcomeHead, invalidHead]
  | condFalseEmpty | condInvalidEmpty =>
      exact braced_line fun depth => by simp [Line.tokens, outcomeHead]
  | letSelector hv =>
      exact braced_line fun depth => by simp [Line.tokens, (inline_value hv).flat.depth_append]
  | elseIfMatches hvs =>
      have hchoices := (plain_choiceTokens (values_mirror hvs).operands).flat
      exact braced_turn fun depth => by simp [Line.tokens, hchoices.depth_append]
  | elseBlock => exact braced_turn fun depth => by simp [Line.tokens]

/-- The call of a register has no braces. -/
theorem flat_registerTokens (method : String) : Flat (registerTokens method) := by
  simp [registerTokens, memberTokens, flat_nil]

/-- A list of values has no braces if they have none. -/
theorem flat_vecTokens {lists : List (List Token)} (h : ∀ ts ∈ lists, Flat ts) :
    Flat (vecTokens lists) := by
  simp [vecTokens, flat_append, flat_commaTokens h, flat_nil]

private theorem flat_initTokens {init : Option HostExpr} (h : ∀ v ∈ init, v.Inline) :
    Flat (initTokens init) := by
  cases init with
  | none => simp [initTokens, flat_nil]
  | some v => simp [initTokens, flat_append, (h v rfl).flat, flat_nil]

private theorem flat_trigger {t : HostTrigger} (h : t.proxy.Inline) : Flat t.tokens := by
  simp [HostTrigger.tokens, flat_append, h.flat, flat_nil]

/-- **The braces of a line** are those of the block that it begins or ends. -/
theorem Model.Writes.braced {m : Model} {c : Command Line} (h : m.Writes c) : c.Braced := by
  cases h with
  | blank =>
      intro depth inner hdepth
      exact hdepth
  | close | closeField => exact braced_leave fun depth => by simp [Line.tokens]
  | unitStruct | ioStruct | implBlock | typeFn | newFn | selfValue | ioValue | simUnitImpl | modelFn
  | initBodyFn | runProcessFn | matchIndex | processFn =>
      exact braced_enter fun depth => by simp [Line.tokens, receiverTokens]
  | comment | modelField | ioField | constantField | unitField | proxyField | letModel | letUnit
  | modelInit | fieldInit | emptyIoValue | modelRef | initUnit | dispatch | noProcess =>
      exact braced_line fun depth => by simp [Line.tokens, memberTokens]
  | result hv => exact braced_line (Site.inline_typeItemValue hv).flat.depth
  | letConst hhost hv =>
      exact braced_line fun depth => by
        simp [Line.tokens, (Site.inline_value hv).flat.depth_append]
  | letProxy hhost htype hinit =>
      have hflat := flat_initTokens (Site.inline_initValue hinit)
      exact braced_line fun depth => by
        simp [Line.tokens, (Site.inline_typeValue htype).flat.depth_append, hflat.depth_append]
  | connect hi hunit hsignal hport =>
      exact braced_line fun depth => by
        simp [Line.tokens, memberTokens, (Site.inline_proxyOf hsignal).flat.depth_append]
  | setInterfaces hhosts =>
      have hvalues := flat_vecTokens (flat_tokenLists (inline_interfaces hhosts))
      exact braced_line fun depth => by
        simp [Line.tokens, (flat_registerTokens _).depth_append, hvalues.depth_append]
  | @setProcesses labels =>
      have hlabels : Flat (commaTokens (labels.map fun label => [.str label])) :=
        flat_commaTokens (List.forall_mem_map.mpr fun label _ => by simp [flat_nil])
      exact braced_line fun depth => by
        simp [Line.tokens, (flat_registerTokens _).depth_append, hlabels.depth_append]
  | setUnits hhosts =>
      have hvalues := flat_vecTokens (flat_tokenLists (inline_units hhosts))
      exact braced_line fun depth => by
        simp [Line.tokens, (flat_registerTokens _).depth_append, hvalues.depth_append]
  | setSensitivity hhosts =>
      have hvalues := flat_vecTokens (List.forall_mem_map.mpr fun t ht =>
        flat_trigger (Site.inline_hostTriggers hhosts t ht))
      exact braced_line fun depth => by
        simp [Line.tokens, (flat_registerTokens _).depth_append, hvalues.depth_append]
  | setOutputs hps =>
      have hvalues := flat_vecTokens (flat_tokenLists (Site.inline_clones hps))
      exact braced_line fun depth => by
        simp [Line.tokens, (flat_registerTokens _).depth_append, hvalues.depth_append]
  | statement hc => exact hc.braced

/-! ### Blocks -/

/-- The braces that are open are the blocks that are open. -/
private theorem braceDepth_stepTokens {steps : List Step} (h : ∀ c, Step.write c ∈ steps → c.Braced)
    {depth inner : Nat} (hdepth : depthAfter depth steps = some inner) :
    braceDepth depth (stepTokens steps) = some inner := by
  induction steps generalizing depth with
  | nil => exact hdepth
  | cons step rest ih =>
      have hrest : ∀ c, Step.write c ∈ rest → c.Braced :=
        fun c hc => h c (List.mem_cons_of_mem _ hc)
      cases step with
      | write command =>
          obtain ⟨next, hnext, hdepth⟩ := Option.bind_eq_some_iff.mp hdepth
          have hfirst := h command List.mem_cons_self depth next hnext
          rw [stepTokens_write, braceDepth_append, hfirst]
          exact ih hrest hdepth
      | log event => exact ih hrest hdepth
      | mark m => exact ih hrest hdepth

/-- **Braces match where blocks do.** -/
theorem balanced_of_framed {α : Type} {s : Script α} {a : α} (hframed : Framed 0 0 s)
    (heach : Each Command.Braced s) (hok : s.outcome = .ok a) : Balanced (stepTokens s.steps) := by
  obtain ⟨depth, hdepth, -, hstop⟩ := hframed.nests 0
  obtain rfl := hstop a hok
  exact braceDepth_stepTokens heach hdepth

end HdlSim
