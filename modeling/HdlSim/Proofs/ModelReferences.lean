import HdlSim.Proofs.References

/-!
# The references of a model

Every line of a model refers to what the model declares (`Model.Writes.fits`): the names in scope
are those of ports, variables, types and their members (`Scope.exists_of_get?`), and each of them
becomes a field or a function of the model (`Model.covered`).

Main statement: every reference in the text of a model is to something that the text declares
(`emit_references_declared`).
-/

namespace HdlSim

open Text Script HostExpr

/-! ### Lines -/

section

variable {P : HostRef → Prop} {s : Site} {ts us : List Token} {t : Token}

/-- A line that refers to what is declared and leaves the lines in front of it alone. -/
structure Fits (P : HostRef → Prop) (ts : List Token) : Prop where
  isSealed : Sealed P ts
  follows : Follows ts

/-- No tokens fit. -/
theorem fits_nil : Fits P [] := ⟨sealed_nil, fun _ h => h⟩

/-- Two lines that fit. -/
theorem Fits.append (hts : Fits P ts) (hus : Fits P us) : Fits P (ts ++ us) := by
  refine ⟨hts.isSealed.append hus.isSealed hus.follows, fun rest hrest => ?_⟩
  rw [List.append_assoc]
  exact hts.follows _ (hus.follows rest hrest)

private theorem fits_flatMap {α : Type} {xs : List α} {f : α → List Token}
    (h : ∀ x ∈ xs, Fits P (f x)) :
    Fits P (xs.flatMap f) := by
  induction xs with
  | nil => exact fits_nil
  | cons x xs ih =>
      obtain ⟨hx, hxs⟩ := List.forall_mem_cons.mp h
      rw [List.flatMap_cons]
      exact hx.append (ih hxs)

/-- A line of tokens that refer to nothing fits. -/
theorem fits_of_inert (h : ∀ x ∈ t :: ts, Inert x) (hopen : t ≠ .sign '(' := by simp)
    (hdot : t ≠ .sign '.' := by simp) : Fits P (t :: ts) :=
  ⟨sealed_of_inert h, follows_cons ts hopen hdot⟩

/-- A line that begins with a word fits if it is sealed. -/
theorem Fits.word {w : String} (h : Sealed P (.word w :: ts)) : Fits P (.word w :: ts) :=
  ⟨h, follows_cons ts⟩

/-- The model or its type, without a part of it. -/
theorem Sealed.word {w : String} {c : Char} (hdot : c ≠ '.') (hcolon : c ≠ ':')
    (h : Sealed P (.sign c :: ts)) : Sealed P (.word w :: .sign c :: ts) := by
  intro us hus hrefs
  have hat : refsAt (.word w :: .sign c :: (ts ++ us)) = [] := by
    rw [refsAt]
    · rintro v rest heq
      exact absurd (Token.sign.inj (List.cons.inj (List.cons.inj heq).2).1) hdot
    · rintro v rest heq
      exact absurd (Token.sign.inj (List.cons.inj (List.cons.inj heq).2).1) hcolon
  refine allRefs_cons_iff.mpr ⟨?_, h us hus hrefs⟩
  simp [hat]

/-- The first line of a function that is called on the model. -/
theorem fits_signature {w : String} {front back : List Token} {c : Char}
    (hfront : ∀ t ∈ .word w :: front, Inert t) (hback : ∀ t ∈ .sign c :: back, Inert t)
    (hdot : c ≠ '.') (hcolon : c ≠ ':') :
    Fits P (.word w :: front ++ receiverTokens ++ .sign c :: back) := by
  have hself : Sealed P (.word "self" :: .sign c :: back) :=
    (sealed_of_inert hback).word hdot hcolon
  have hline := (hself.behind [.sign '&', .word "mut"] (by simp)).behind _ hfront
  exact .word (by simpa [receiverTokens] using hline)

/-- A function that is called on the model. -/
theorem sealed_selfMethod {n : HostName} (hn : n.IsProper) (h : P (.method n.text))
    (hts : Sealed P ts) : Sealed P (memberTokens n.text ++ .sign '(' :: ts) := by
  intro us hus hrefs
  have hat : ∀ r ∈ refsAt (memberTokens n.text ++ .sign '(' :: ts ++ us), P r := by
    simpa [memberTokens, refsAt, selfRefs] using h
  refine allRefs_cons_iff.mpr ⟨hat, ?_⟩
  exact (((hts.cons (inert_sign '(')).cons hn.inert).cons (inert_sign '.')) us hus hrefs

/-- The references in a call are those in its parts. -/
private theorem sealed_callTokens {receiver : List Token} {method : String}
    {args : List (List Token)} (hreceiver : Sealed P receiver) (hmethod : Inert (.word method))
    (hne : method ≠ "member") (hargs : ∀ a ∈ args, Sealed P a) :
    Sealed P (callTokens receiver method args) := by
  have hcall := (sealed_commaTokens hargs).between [.sign '.', .word method, .sign '(']
    [.sign ')', .sign ';'] (by simpa using hmethod) (by simp) (follows_close _)
  simpa [callTokens] using hreceiver.append hcall (follows_method hne _)

/-- No reference goes on with a proxy. -/
theorem Site.ProxyReference.follows {n : Ident} {e : HostExpr} (h : s.ProxyReference n e)
    (us : List Token) : Follows (e.tokens ++ us) := by
  cases h with
  | inConstructor hplace hname => exact follows_cons _
  | inProcess hplace hname => exact follows_cons _

/-- A call on a signal. -/
theorem fits_callTokens (hs : s.Covered P) {n : Ident} {proxy : HostExpr}
    (hproxy : s.proxyOf n = .ok proxy) {method : String} {args : List (List Token)}
    (hmethod : Inert (.word method)) (hne : method ≠ "member") (hargs : ∀ a ∈ args, Sealed P a) :
    Fits P (callTokens proxy.tokens method args) := by
  obtain ⟨hkind, hreference⟩ := Site.proxyOf_eq_ok_iff.mp hproxy
  refine ⟨sealed_callTokens (hreference.isSealed hs hkind) hmethod hne hargs, ?_⟩
  rw [callTokens, List.append_assoc, List.append_assoc]
  exact hreference.follows _

/-- The references in tests are those in the choices. -/
private theorem sealed_choiceTokens {choices : List HostExpr}
    (h : ∀ c ∈ choices, Sealed P c.tokens) :
    Sealed P (choiceTokens choices) := by
  refine sealed_join (by decide) (by decide) (by simp) (List.forall_mem_map.mpr fun c hc => ?_)
  exact (h c hc).between [.word "sel", .sign '.', .word "matches", .sign '(', .sign '&']
    [.sign ')'] (by simp) (by simp) (follows_close [])

/-- **Statements refer to what is declared.** -/
theorem Site.Writes.fits (hs : s.Covered P) {c : Command Line} (h : s.Writes c) :
    Fits P c.written.tokens := by
  have hvalue : ∀ {e v}, s.value e = .ok v → Sealed P v.tokens :=
    fun hv => (Site.value_mirrors hv).isSealed hs
  cases h with
  | write hp hv => exact fits_callTokens hs hp (by decide) (by decide) (by simpa using hvalue hv)
  | writeAt hp hk hv =>
      exact fits_callTokens hs hp (by decide) (by decide) (by simpa using ⟨hvalue hk, hvalue hv⟩)
  | writeSlice hp hhigh hlow hv =>
      exact fits_callTokens hs hp (by decide) (by decide)
        (by simpa using ⟨hvalue hhigh, hvalue hlow, hvalue hv⟩)
  | writeInvalid hp => exact fits_callTokens hs hp (by decide) (by decide) (by simp)
  | matchCond hv =>
      exact .word ((hvalue hv).between [.word "match", .word "sim_eval_cond", .sign '(']
        [.sign ')', .sign '\x7b'] (by simp) (by simp) (follows_close _))
  | letSelector hv =>
      exact .word ((hvalue hv).between [.word "let", .word "sel", .sign '='] [.sign ';'] (by simp)
        (by simp) (follows_cons _))
  | elseIfMatches hvs =>
      have hchoices := sealed_choiceTokens ((Site.values_mirror hvs).areSealed hs)
      exact ⟨hchoices.between [.sign '\x7d', .word "else", .word "if"] [.sign '\x7b'] (by simp)
        (by simp) (follows_cons _), follows_cons _⟩
  | condTrue | condFalse | condFalseEmpty | condInvalid | condInvalidEmpty =>
      exact fits_of_inert (by simp)
  | close | bareBlock | ifSelectorInvalid | elseBlock =>
      exact fits_of_inert (by simp)

end

/-- References to the parts of the model have the property. -/
structure Model.Covered (P : HostRef → Prop) (m : Model) : Prop where
  site : ∀ place object, (m.site place object).Covered P
  model : P (.field "model")
  signal : ∀ d ∈ m.signals, P (.proxy (m.context.names.hostOf d.name).text)
  unit : ∀ i ∈ m.body.instances, P (.field (m.context.names.hostOf i.name).text)
  process : ∀ p ∈ m.body.processes, P (.method (m.context.names.hostOf p.label).text)

namespace Model

variable {P : HostRef → Prop} {m : Model} {ts : List Token}

-- An identifier is compared as a whole and never by how a name is escaped.
attribute [local irreducible] HostName.escape

/-- A copy of something that the model holds. -/
theorem sealed_clone {e : HostExpr} (he : Sealed P e.tokens) :
    Sealed P (HostExpr.method e "clone" []).tokens :=
  sealed_method he (by decide) (by decide) (by simp)

private theorem sealed_interfaces (hm : m.Covered P) {hosts : List HostName}
    (hhosts : m.context.hosts (m.signals.map Variable.name) = .ok hosts) :
    ∀ v ∈ hosts.map fun n => HostExpr.method (.field .proxies n) "clone" [], Sealed P v.tokens := by
  refine List.forall_mem_map.mpr fun host hhost => sealed_clone ?_
  rw [Context.hosts_ok hhosts, List.map_map] at hhost
  obtain ⟨d, hd, rfl⟩ := List.mem_map.mp hhost
  exact sealed_proxy (HostName.escape_isProper _) (hm.site .process "").io (hm.signal d hd)

/-- A part of a sub-unit. -/
theorem sealed_unit (hm : m.Covered P) {i : Instance} (hi : i ∈ m.body.instances) {part : String}
    (hpart : part ≠ "member") (hts : Sealed P (.sign '.' :: .word part :: ts)) :
    Sealed P (memberTokens (m.context.names.hostOf i.name).text ++ .sign '.' :: .word part :: ts) :=
  (sealed_field (m.context.names.isProper_hostOf i.name) (HostName.escape_text_ne_io _)
    (hm.unit i hi)).append hts (follows_method hpart ts)

private theorem sealed_units (hm : m.Covered P) {hosts : List HostName}
    (hhosts : m.context.hosts (m.body.instances.map Instance.name) = .ok hosts) :
    ∀ v ∈ hosts.map fun n => HostExpr.method (.field (.field .self n) (.plain "model")) "clone" [],
      Sealed P v.tokens := by
  refine List.forall_mem_map.mpr fun host hhost => sealed_clone ?_
  rw [Context.hosts_ok hhosts, List.map_map] at hhost
  obtain ⟨i, hi, rfl⟩ := List.mem_map.mp hhost
  exact sealed_unit hm hi (by decide) (sealed_of_inert (by simp))

/-- The references in a list of values are those in the values. -/
theorem sealed_vecTokens {lists : List (List Token)} (h : ∀ ts ∈ lists, Sealed P ts) :
    Sealed P (vecTokens lists) :=
  (sealed_commaTokens h).between [.word "vec", .sign '!', .sign '['] [.sign ']'] (by simp) (by simp)
    (follows_cons _)

/-- A call by which the simulator gets to know the model. -/
theorem fits_register (hm : m.Covered P) {method : String} (hmethod : Inert (.word method))
    (hne : method ≠ "member") (hts : Sealed P ts) :
    Fits P (registerTokens method ++ ts ++ [Token.sign ')', .sign ';']) := by
  have hmodel : Sealed P (memberTokens (HostName.plain "model").text) :=
    sealed_field (by decide) (by decide) hm.model
  have hcall := hts.between [.sign '.', .word method, .sign '('] [.sign ')', .sign ';']
    (by simpa using hmethod) (by simp) (follows_close _)
  have hline := hmodel.append hcall (follows_method hne _)
  exact .word (by simpa [registerTokens, memberTokens] using hline)

/-- The references in an initial value are covered. -/
private theorem sealed_initTokens (hm : m.Covered P) {place : Place} {object : String}
    {e : Option Expr} {init : Option HostExpr} (h : (m.site place object).initValue e = .ok init) :
    Sealed P (initTokens init) := by
  cases init with
  | none => exact sealed_of_inert (by decide)
  | some v =>
      obtain ⟨x, hx⟩ := Site.exists_of_initValue h v rfl
      have hvalue := (Site.value_mirrors hx).isSealed (hm.site place object)
      exact hvalue.between [.word "Some", .sign '('] [.sign ')'] (by simp) (by simp)
        (follows_close [])

private theorem sealed_hostTriggers (hm : m.Covered P) {object : String} {ts : List Trigger}
    {hosts : List HostTrigger} (h : (m.site .process object).hostTriggers ts = .ok hosts) :
    ∀ t ∈ hosts.map HostTrigger.tokens, Sealed P t := by
  refine List.forall_mem_map.mpr fun host hhost => ?_
  obtain ⟨t, -, ht⟩ := Except.exists_of_mem_mapM h hhost
  obtain ⟨p, hp, ht⟩ := Except.bind_eq_ok_iff.mp ht
  obtain rfl := Except.pure_eq_ok_iff.mp ht
  obtain ⟨hkind, hreference⟩ := Site.proxyOf_eq_ok_iff.mp hp
  have hmaker : t.edge.maker ≠ "self" ∧ t.edge.maker ≠ "Self" := by
    cases t.edge <;> decide
  exact (hreference.isSealed (hm.site .process object) hkind).between
    [.word "Trigger", .sign ':', .sign ':', .word t.edge.maker, .sign '(', .sign '&'] [.sign ')']
    (by simpa using hmaker) (by simp) (follows_close [])

private theorem sealed_outputs (hm : m.Covered P) {object : String} {ns : List Ident}
    {ps : List HostExpr} (h : (m.site .process object).proxiesOf ns = .ok ps) :
    ∀ v ∈ ps.map fun p => HostExpr.method p "clone" [], Sealed P v.tokens := by
  refine List.forall_mem_map.mpr fun p hp => sealed_clone ?_
  obtain ⟨n, -, hn⟩ := Except.exists_of_mem_mapM h hp
  obtain ⟨hkind, hreference⟩ := Site.proxyOf_eq_ok_iff.mp hn
  exact hreference.isSealed (hm.site .process object) hkind

/-- No reference goes on with the value of a type. -/
theorem TypeMirrors.follows {s : Site} {type : Ty} {v : HostExpr} (h : TypeMirrors s type v) :
    Follows v.tokens := by
  cases h <;> exact follows_cons _

/-- The value of a type that is declared fits as a line. -/
private theorem fits_result (hm : m.Covered P) {place : Place} {object : String} {t : TypeItem}
    {v : HostExpr} (h : (m.site place object).typeItemValue t = .ok v) : Fits P v.tokens := by
  rcases Site.typeItemValue_mirrors h with ⟨name, labels, -, -, rfl⟩ | ⟨-, type, hmirrors⟩
  · rw [Site.enumCall_tokens]
    have hlabels : Sealed P (commaTokens (labels.map fun label => [.str label])) :=
      sealed_commaTokens (List.forall_mem_map.mpr fun label _ => sealed_of_inert (by simp))
    exact .word (hlabels.between _ _ (by simp) (by simp) (follows_cons _))
  · exact ⟨hmirrors.isSealed (hm.site place object), TypeMirrors.follows hmirrors⟩

/-- The binding of a proxy fits as a line. -/
private theorem fits_letProxy (hm : m.Covered P) {name : HostName} (hname : name.IsProper)
    {place : Place} {object label : String} {type : Ty} {v : HostExpr} {e : Option Expr}
    {init : Option HostExpr} (htype : (m.site place object).typeValue type = .ok v)
    (hinit : (m.site place object).initValue e = .ok init) :
    Fits P (Line.letProxy name label v init).tokens := by
  have hvalue := (Site.typeValue_mirrors htype).isSealed (hm.site place object)
  have htail := (sealed_initTokens hm hinit).between [.sign ','] [.sign ')', .sign ';'] (by simp)
    (by simp) (follows_close _)
  have hline := (hvalue.append htail (follows_cons _)).behind
    [.word "let", .word name.text, .sign '=', .word "SimProxy", .sign ':', .sign ':', .word "new",
      .sign '(', .word "sim", .sign ',', .sign '&', .word "model", .sign ',', .str label, .sign ',']
    (by simpa using hname.ne_self)
  exact .word (by simpa using hline)

private theorem fits_connect (hm : m.Covered P) {object : String} {n : Ident} {signal : HostExpr}
    (hsignal : (m.site .process object).proxyOf n = .ok signal) {i : Instance}
    (hi : i ∈ m.body.instances) {port : HostName} (hport : port.IsProper) :
    Fits P (Line.connect signal (m.context.names.hostOf i.name) port).tokens := by
  obtain ⟨hkind, hreference⟩ := Site.proxyOf_eq_ok_iff.mp hsignal
  have hrest : Sealed P
      [.sign '.', .word "io", .sign '.', .word port.text, .sign ')', .sign ';'] :=
    sealed_of_inert (by simpa using hport.ne_self)
  have hsub := (sealed_unit hm hi (by decide) hrest).behind [.sign ',', .sign '&', .word "mut"]
    (by simp)
  have hargs := (hreference.isSealed (hm.site .process object) hkind).append hsub
    (follows_cons _)
  have hline := hargs.behind [.word "connect_sim_port", .sign '(', .sign '&'] (by simp)
  exact .word (by simpa using hline)

/-- **Every line of a model refers to what is declared.** -/
theorem Writes.fits (hm : m.Covered P) {c : Command Line} (h : m.Writes c) :
    Fits P c.written.tokens := by
  have hunit := m.context.isProper_unit.ne_self
  have hio := m.context.isProper_io.ne_self
  cases h with
  | blank | comment => exact fits_nil
  | close | closeField | matchIndex => exact fits_of_inert (by simp)
  | unitStruct | implBlock | simUnitImpl =>
      exact fits_of_inert (by simpa using hunit)
  | ioStruct | ioField | ioValue | emptyIoValue =>
      exact fits_of_inert (by simpa using hio)
  | modelField | letModel | modelInit | noProcess =>
      exact fits_of_inert (by simp)
  | constantField hhost | proxyField hhost | typeFn hhost | fieldInit hhost =>
      have hname := (Context.isProper_host hhost).ne_self
      exact fits_of_inert (by simpa using hname)
  | unitField hhost htype | letUnit hhost htype =>
      have hname := (Context.isProper_host hhost).ne_self
      have hmodule := (Context.isProper_host htype).ne_self
      exact fits_of_inert (by simpa using ⟨hname, hmodule⟩)
  | result hv => exact fits_result hm hv
  | newFn =>
      have hresult : Sealed P [.word "Self", .sign '\x7b'] :=
        Sealed.word (by decide) (by decide) (sealed_of_inert (by simp))
      exact .word (hresult.behind
        [.word "pub", .word "fn", .word "new", .sign '(', .word "sim", .sign ':', .sign '&',
          .word "mut", .word "Simulator", .sign ',', .word "inst_name", .sign ':', .sign '&',
          .word "str", .sign ')', .sign '-', .sign '>'] (by simp))
  | letConst hhost hv =>
      have hname := (Context.isProper_host hhost).ne_self
      have hvalue := (Site.value_mirrors hv).isSealed (hm.site _ _)
      exact .word (hvalue.between _ [.sign ';'] (by simpa using hname) (by simp)
        (follows_cons _))
  | letProxy hhost htype hinit => exact fits_letProxy hm (Context.isProper_host hhost) htype hinit
  | selfValue => exact .word (Sealed.word (by decide) (by decide) (sealed_of_inert (by simp)))
  | modelFn | initBodyFn | runProcessFn =>
      exact fits_signature (by simp) (by simp) (by decide) (by decide)
  | processFn hhost =>
      have hname := (Context.isProper_host hhost).ne_self
      exact fits_signature (by simpa using hname) (by simp) (by decide) (by decide)
  | modelRef =>
      have hmodel : Sealed P (memberTokens (HostName.plain "model").text) :=
        sealed_field (by decide) (by decide) hm.model
      exact ⟨hmodel.behind [.sign '&', .word "mut"] (by simp), follows_cons _⟩
  | connect hi hunit hsignal hport =>
      obtain rfl := Context.host_ok hunit
      exact fits_connect hm hsignal hi (Context.isProper_host hport)
  | setInterfaces hhosts =>
      have hargs := sealed_vecTokens (sealed_tokenLists (sealed_interfaces hm hhosts))
      exact fits_register hm (by decide) (by decide) hargs
  | setUnits hhosts =>
      have hargs := sealed_vecTokens (sealed_tokenLists (sealed_units hm hhosts))
      exact fits_register hm (by decide) (by decide) hargs
  | @setProcesses labels =>
      have hlabels : Sealed P (commaTokens (labels.map fun label => [.str label])) :=
        sealed_commaTokens (List.forall_mem_map.mpr fun label _ => sealed_of_inert (by simp))
      have hargs := hlabels.between [.sign '&', .sign '['] [.sign ']'] (by simp) (by simp)
        (follows_cons _)
      simpa [Command.written, Line.tokens] using fits_register hm (by decide) (by decide) hargs
  | @setSensitivity object label ts hosts hhosts =>
      have hargs := (sealed_vecTokens (sealed_hostTriggers hm hhosts)).behind
        [.str label, .sign ','] (by simp)
      simpa [Command.written, Line.tokens] using fits_register hm (by decide) (by decide) hargs
  | @setOutputs object label ns ps hps =>
      have hargs := (sealed_vecTokens (sealed_tokenLists (sealed_outputs hm hps))).behind
        [.str label, .sign ','] (by simp)
      simpa [Command.written, Line.tokens] using fits_register hm (by decide) (by decide) hargs
  | initUnit hi hunit =>
      obtain rfl := Context.host_ok hunit
      exact .word (sealed_unit hm hi (by decide) (sealed_of_inert (by simp)))
  | @dispatch p index host hp hhost =>
      obtain rfl : host = m.context.names.hostOf p.label := Context.host_ok hhost
      have hend : Sealed P [.sign ')', .sign ','] := sealed_of_inert (by simp)
      have hcall := sealed_selfMethod (m.context.names.isProper_hostOf p.label) (hm.process p hp)
        hend
      have hline := hcall.behind [.word (natText index), .sign '=', .sign '>']
        (by simpa using inert_natText index)
      exact .word (by simpa [Command.written, Line.tokens] using hline)
  | statement hc => exact hc.fits (hm.site _ _)

end Model

/-! ### What is in scope is declared -/

namespace Scope

variable {ports : List Variable} {body : Body} {n : Ident}

/-- What a name denotes is an entry of the scope. -/
theorem mem_of_get? {s : Scope} {kind : NameKind} (h : s.get? n = some kind) :
    (n, kind) ∈ s.entries := by
  obtain ⟨front, back, hentries, -⟩ := List.lookup_eq_some_iff.mp h
  rw [hentries]
  exact List.mem_append_right _ List.mem_cons_self

/-- What a name of the module denotes tells where it is declared. -/
theorem exists_of_get? {kind : NameKind} (h : (ofBody ports body).get? n = some kind) :
    (∃ t ∈ body.types, (n, kind) ∈ typeEntries t) ∨
      ∃ d ∈ ports ++ body.vars, variableEntry d = (n, kind) := by
  rcases List.mem_append.mp (mem_of_get? h) with hmem | hmem
  · exact .inl (List.mem_flatMap.mp hmem)
  · exact .inr (List.mem_map.mp hmem)

/-- A signal in scope is declared. -/
theorem exists_proxy (h : (ofBody ports body).get? n = some .proxy) :
    ∃ d ∈ (ports ++ body.vars).filter fun d => !d.isConst, d.name = n := by
  rcases exists_of_get? h with ⟨t, -, hentry⟩ | ⟨d, hd, hentry⟩
  · simp [typeEntries] at hentry
  · obtain ⟨rfl, hkind⟩ := Prod.mk.inj hentry
    refine ⟨d, List.mem_filter.mpr ⟨hd, ?_⟩, rfl⟩
    cases hconst : d.isConst with
    | true => simp [hconst] at hkind
    | false => rfl

/-- A constant in scope is declared. -/
theorem exists_constant (h : (ofBody ports body).get? n = some .constant) :
    ∃ d ∈ (ports ++ body.vars).filter Variable.isConst, d.name = n := by
  rcases exists_of_get? h with ⟨t, -, hentry⟩ | ⟨d, hd, hentry⟩
  · simp [typeEntries] at hentry
  · obtain ⟨rfl, hkind⟩ := Prod.mk.inj hentry
    refine ⟨d, List.mem_filter.mpr ⟨hd, ?_⟩, rfl⟩
    cases hconst : d.isConst with
    | true => rfl
    | false => simp [hconst] at hkind

private theorem exists_type (h : (ofBody ports body).get? n = some .type) :
    ∃ t ∈ body.types, t.name = n := by
  rcases exists_of_get? h with ⟨t, ht, hentry⟩ | ⟨d, hd, hentry⟩
  · refine ⟨t, ht, ?_⟩
    simpa [typeEntries, eq_comm] using hentry
  · obtain ⟨-, hkind⟩ := Prod.mk.inj hentry
    split at hkind <;> cases hkind

/-- A member in scope is declared by a type. -/
private theorem exists_member {type : Ident}
    (h : (ofBody ports body).get? n = some (.enumMember type)) :
    ∃ t ∈ body.types, t.name = type ∧ ∃ member ∈ t.members, member.name = n := by
  rcases exists_of_get? h with ⟨t, ht, hentry⟩ | ⟨d, hd, hentry⟩
  · refine ⟨t, ht, ?_⟩
    obtain ⟨member, hmember, rfl, rfl⟩ : ∃ member ∈ t.members, member.name = n ∧ t.name = type := by
      simpa [typeEntries] using hentry
    exact ⟨rfl, member, hmember, rfl⟩
  · obtain ⟨-, hkind⟩ := Prod.mk.inj hentry
    split at hkind <;> cases hkind

end Scope

/-! ### The members of enumerations -/

/-- The literals among some tokens. -/
theorem literals_commaTokens (labels : List String) (ts : List Token) :
    ((commaTokens (labels.map fun label => [.str label]) ++ .sign ']' :: ts).takeWhile
        (· ≠ .sign ']')).filterMap (fun
      | .quoted label => some label
      | _ => none) = labels.map fun label => label.toList.flatMap escapeChar := by
  induction labels with
  | nil => simp [commaTokens, joinTokens]
  | cons label labels ih =>
      cases labels with
      | nil => simp [commaTokens, joinTokens, Token.str]
      | cons next labels =>
          rw [List.map_cons, commaTokens_cons _ (by simp)]
          simpa [Token.str] using ih

/-- The labels of an enumeration are found in the call that defines it. -/
theorem enumLabels_enumCall (name : String) (labels : List String) :
    enumLabels (HostExpr.runtime "define_enum3t" [.str name, .strs labels]).tokens =
      labels.map fun label => label.toList.flatMap escapeChar := by
  rw [Site.enumCall_tokens]
  exact literals_commaTokens labels [.sign ')']

/-- The text of a member is one of the texts of the enumeration. -/
private theorem Site.mem_memberNames {s : Site} {members : List EnumMember} {labels : List String}
    (h : s.memberNames members = .ok labels) {member : EnumMember} (hmember : member ∈ members)
    {text : String} (htext : s.context.names.resolve? member.name = some text) :
    text ∈ labels := by
  induction members generalizing labels with
  | nil => cases hmember
  | cons first rest ih =>
      obtain ⟨n, value⟩ := first
      cases value with
      | some value => simp [memberNames] at h
      | none =>
          obtain ⟨label, hlabel, h⟩ := Except.bind_eq_ok_iff.mp h
          obtain ⟨others, hothers, h⟩ := Except.bind_eq_ok_iff.mp h
          obtain rfl := Except.pure_eq_ok_iff.mp h
          rcases List.mem_cons.mp hmember with rfl | hrest
          · have hsame := Context.name_eq_ok_iff.mp hlabel
            rw [htext] at hsame
            obtain rfl := Option.some.inj hsame
            exact List.mem_cons_self
          · exact List.mem_cons_of_mem _ (ih hothers hrest)

namespace Model

variable {m : Model} {summary : Summary}

attribute [local irreducible] HostName.escape

/-- In a model that is written every type has a value. -/
private theorem typeItemValue_of_outcome (hok : m.code.outcome = .ok summary) {t : TypeItem}
    (ht : t ∈ m.body.types) : ∃ value,
      (m.site .static ("type `" ++ m.context.names.textOf t.name ++ "`")).typeItemValue t =
        .ok value := by
  have hmakers := outcome_makers hok
  simp only [makers, outcome_bind, outcome_enclosed] at hmakers
  obtain ⟨_, htypes, -⟩ := Except.bind_eq_ok_iff.mp hmakers
  have htype := outcome_forEach_ok_iff.mp htypes t ht
  rw [typeFunction_eq] at htype
  simp only [outcome_bind, outcome_lift] at htype
  obtain ⟨name, hname, htype⟩ := Except.bind_eq_ok_iff.mp htype
  obtain ⟨value, hvalue, -⟩ := Except.bind_eq_ok_iff.mp htype
  obtain rfl := Context.name_ok hname
  exact ⟨value, hvalue⟩

/-- The members of a type are in the list of the function for it. -/
theorem mem_enumLabels (hok : m.code.outcome = .ok summary) {t : TypeItem}
    (ht : t ∈ m.body.types) {member : EnumMember} (hmember : member ∈ t.members) {text : String}
    (htext : m.context.names.resolve? member.name = some text) :
    text.toList.flatMap escapeChar ∈ enumLabels (m.maker t).body := by
  obtain ⟨value, hvalue⟩ := typeItemValue_of_outcome hok ht
  have hbody : (m.maker t).body = value.tokens := by
    simp only [maker, hvalue]
  rw [hbody]
  rcases Site.typeItemValue_mirrors hvalue with ⟨name, labels, -, hlabels, rfl⟩ | ⟨hnone, -⟩
  · rw [enumLabels_enumCall]
    exact List.mem_map_of_mem (Site.mem_memberNames hlabels hmember htext)
  · rw [hnone] at hmember
    cases hmember

/-- The names of functions are read back. -/
theorem isProper_functions (m : Model) : ∀ f ∈ m.host.functions, f.name.IsProper := by
  have hnew : (HostName.plain "new").IsProper := by decide
  have hmodel : (HostName.plain "model").IsProper := by decide
  have hinit : (HostName.plain "init_body").IsProper := by decide
  have hrun : (HostName.plain "run_process").IsProper := by decide
  intro f hf
  simp only [HostModel.functions, host, List.mem_append, List.mem_cons, List.mem_map,
    List.not_mem_nil, or_false] at hf
  rcases hf with ⟨t, -, rfl⟩ | rfl | (rfl | rfl | rfl) | ⟨p, -, rfl⟩
  · exact m.context.names.isProper_hostOf t.name
  · exact hnew
  · exact hmodel
  · exact hinit
  · exact hrun
  · exact m.context.names.isProper_hostOf p.label

/-- Functions are told apart by the text of their names. -/
theorem function_ext (honce : (HostName.words (m.host.functions.map HostFunction.name)).Nodup)
    {f g : HostFunction} (hf : f ∈ m.host.functions) (hg : g ∈ m.host.functions)
    (htext : g.name.text = f.name.text) : g = f := by
  have hname : g.name = f.name := by
    have hread := (m.isProper_functions g hg).name?
    rw [htext, (m.isProper_functions f hf).name?] at hread
    exact (Option.some.inj hread).symm
  rw [HostName.words, List.map_map] at honce
  exact List.inj_on_of_nodup_map honce hg hf (congrArg HostName.word hname)

/-- A model has a proxy for each signal. -/
theorem has_signal {d : Variable} (hd : d ∈ m.signals) :
    m.host.Has (.proxy (m.context.names.hostOf d.name).text) :=
  ⟨_, List.mem_map_of_mem hd, rfl⟩

/-- A model has a field for each constant. -/
private theorem has_constant {d : Variable} (hd : d ∈ m.constants) :
    m.host.Has (.field (m.context.names.hostOf d.name).text) :=
  ⟨_, List.mem_cons_of_mem _ (List.mem_cons_of_mem _
    (List.mem_append_left _ (List.mem_map_of_mem hd))), rfl⟩

/-- A model has a field for each instance. -/
private theorem has_unit {i : Instance} (hi : i ∈ m.body.instances) :
    m.host.Has (.field (m.context.names.hostOf i.name).text) :=
  ⟨_, List.mem_cons_of_mem _ (List.mem_cons_of_mem _
    (List.mem_append_right _ (List.mem_map_of_mem hi))), rfl⟩

/-- A model has a function for each type. -/
theorem has_type {t : TypeItem} (ht : t ∈ m.body.types) :
    m.host.Has (.type (m.context.names.hostOf t.name).text) :=
  ⟨_, List.mem_map_of_mem ht, rfl, rfl⟩

/-- A model has a function for each process. -/
private theorem has_process {p : ProcessDecl} (hp : p ∈ m.body.processes) :
    m.host.Has (.method (m.context.names.hostOf p.label).text) :=
  ⟨_, List.mem_map_of_mem hp, rfl, rfl⟩

/-- A model has the members of its enumerations. -/
private theorem has_member (hok : m.code.outcome = .ok summary)
    (honce : (HostName.words (m.host.functions.map HostFunction.name)).Nodup) {t : TypeItem}
    (ht : t ∈ m.body.types) {member : EnumMember} (hmember : member ∈ t.members) {text : String}
    (htext : m.context.names.resolve? member.name = some text) :
    m.host.Has (.member (m.context.names.hostOf t.name).text (text.toList.flatMap escapeChar)) := by
  have hmaker : m.maker t ∈ m.host.types := List.mem_map_of_mem ht
  refine ⟨m.maker t, hmaker, rfl, ?_, mem_enumLabels hok ht hmember htext⟩
  intro g hg hname
  exact function_ext honce (List.mem_append_left _ hmaker) hg hname

/-- The names in scope are declared. -/
theorem covered_site (hscope : m.scope = Scope.ofBody m.ports m.body)
    (hok : m.code.outcome = .ok summary)
    (honce : (HostName.words (m.host.functions.map HostFunction.name)).Nodup) (place : Place)
    (object : String) : (m.site place object).Covered m.host.Has := by
  have hhost : ∀ {n text}, m.context.names.resolve? n = some text →
      m.context.names.hostOf n = HostName.escape text := by
    intro n text hname
    simp [NameTable.hostOf, NameTable.textOf, hname]
  have hsite : (m.site place object).scope = Scope.ofBody m.ports m.body := hscope
  refine ⟨⟨_, List.mem_cons_of_mem _ List.mem_cons_self, rfl⟩, ?_, ?_, ?_, ?_⟩
  · intro n text hkind hname
    rw [hsite] at hkind
    obtain ⟨d, hd, rfl⟩ := Scope.exists_proxy hkind
    rw [← hhost hname]
    exact has_signal hd
  · intro n text hkind hname
    rw [hsite] at hkind
    obtain ⟨d, hd, rfl⟩ := Scope.exists_constant hkind
    rw [← hhost hname]
    exact has_constant hd
  · intro n text hkind hname
    rw [hsite] at hkind
    obtain ⟨t, ht, rfl⟩ := Scope.exists_type hkind
    rw [← hhost hname]
    exact has_type ht
  · intro n type text typeText hkind hname htype
    rw [hsite] at hkind
    obtain ⟨t, ht, rfl, member, hmember, rfl⟩ := Scope.exists_member hkind
    rw [← hhost htype]
    exact ⟨has_type ht, has_member hok honce ht hmember hname⟩

/-- **What a model can refer to is declared.** -/
theorem covered (hscope : m.scope = Scope.ofBody m.ports m.body)
    (hok : m.code.outcome = .ok summary)
    (honce : (HostName.words (m.host.functions.map HostFunction.name)).Nodup) :
    m.Covered m.host.Has where
  site := covered_site hscope hok honce
  model := ⟨_, List.mem_cons_self, rfl⟩
  signal _ := has_signal
  unit _ := has_unit
  process _ := has_process

/-- The references in the code of a model are covered. -/
private theorem allRefs_code {P : HostRef → Prop} (hm : m.Covered P) :
    AllRefs P (stepTokens m.code.steps) := by
  have hfits : Fits P (stepTokens m.code.steps) :=
    fits_flatMap (each_code.written fun _ => Writes.fits hm)
  have hempty : AllRefs P [] := by simp [AllRefs, refs]
  simpa using hfits.isSealed [] detached_nil hempty

end Model

/-- **Every reference is declared.**  If no name is declared twice among the types and processes of
the module, then in the text that is added behind the imports every reference to a signal, a
constant, an instance, a process, a type or a member of an enumeration is to one that the text
declares. -/
theorem emit_references_declared (names : NameTable) (settings : Settings) (session : Session)
    (m : Module) {summary : Summary} (h : (session.emit names settings m).result = .ok summary)
    (hfunctions : (Scope.functionNames (Body.ofItems m.items)).Nodup) :
    ∃ host code references, (session.emit names settings m).session.text =
        session.text ++ session.head settings (m.submodules names) ++ code ∧
      HostItem.read code = some host.items ∧ HostModel.Declares names m host ∧
      HostRef.read code = some references ∧ ∀ r ∈ references, host.Has r := by
  obtain ⟨name, hname, hmodel, hcode, htext⟩ := Session.emit_code h
  obtain ⟨-, -, hscope⟩ := Model.ofModule_succeeds_iff.mp ⟨_, hmodel⟩
  obtain ⟨-, hknown, hapart⟩ := Scope.build_succeeds_iff.mp hscope
  have hdeclares := Model.host_declares hname hcode
  have honce := hdeclares.nodup_functions ⟨hknown, hapart, hfunctions⟩
  refine ⟨_, _, refs (stepTokens (m.model names name).code.steps), htext, Model.read_code hcode _,
    hdeclares, ?_, Model.allRefs_code (Model.covered rfl hcode honce)⟩
  rw [HostRef.read, String.toList_ofList, Model.code_tokens, Option.map_some]

/-- A module with a process that refers to a member, a constant and a signal. -/
theorem emit_references_declared_member :
    let names : NameTable :=
      ⟨["top", "clk", "q", "RESET", "state", "IDLE", "sub", "u", "d", "tick"]⟩
    let settings : Settings := .standard
    let session : Session := .start none
    let m : Module :=
      { Module.empty ⟨0⟩ with
        ports := [.port ⟨1⟩ .input (.bits 1 false)]
        items :=
          [.enumType ⟨⟨4⟩, none, [⟨⟨5⟩, none⟩]⟩,
            .varDecl (.signal ⟨2⟩ (.named ⟨4⟩)),
            .varDecl (.constant ⟨3⟩ (.bits 8 false) (.literal (.int 8))),
            .process ((ProcessDecl.ofBody ⟨9⟩ [.edge .rising (.name ⟨1⟩)]
              [.ifElse [⟨.name ⟨3⟩, [.assign (.name ⟨2⟩) (.name ⟨5⟩)]⟩] none]).withOutputs [⟨2⟩]),
            .subunit (.ofBindings ⟨7⟩ ⟨6⟩ [(⟨8⟩, ⟨2⟩)])] }
    let summary : Summary :=
      ⟨"top", ["clk", "q"], ["RESET"], [⟨"tick", [⟨"clk", .rising⟩], ["q"]⟩], ["u"]⟩
    (session.emit names settings m).result = .ok summary ∧
      (Scope.functionNames (Body.ofItems m.items)).Nodup ∧
      ∃ host code references, (session.emit names settings m).session.text =
          session.text ++ session.head settings (m.submodules names) ++ code ∧
        HostItem.read code = some host.items ∧ HostModel.Declares names m host ∧
        HostRef.read code = some references ∧ ∀ r ∈ references, host.Has r := by
  intro names settings session m summary
  have houtcome : (session.moduleScript settings ⟨names, "top"⟩ m).outcome = .ok summary := rfl
  have hname : names.resolve? m.name = some "top" := rfl
  have hlimit : session.writer.sink.limit = none := rfl
  have hresult : (session.emit names settings m).result = .ok summary := by
    rw [Session.emit_unlimited hname hlimit settings, houtcome]
  have hfunctions : (Scope.functionNames (Body.ofItems m.items)).Nodup := by decide
  exact ⟨hresult, hfunctions,
    emit_references_declared names settings session m hresult hfunctions⟩

end HdlSim
