import HdlSim.Proofs.RenamedSites

/-!
# Numbers of names are not observable

If two name tables give the names of a module the same texts, each under numbers of its own, then
the two write the same model: the same lines, the same events and the same end
(`Renames.moduleScript`).  Names are told apart by their numbers, which is the same as by their
texts, since a table issues a text only once (`NameTable.nodup_ofList`).
-/

namespace HdlSim

open Script

variable {r l : Ident → Ident} {ns : List Ident}

/-! ### Models -/

/-- The model in another context, with other numbers for its names. -/
def Model.rename (r : Ident → Ident) (c' : Context) (m : Model) : Model where
  context := c'
  doc := m.doc
  ports := m.ports.map (Variable.rename r)
  body := m.body.rename r
  scope := m.scope.rename r

/-- The names of a model have the same texts in another context, under a renaming. -/
structure Model.Renames (r l : Ident → Ident) (ns : List Ident) (c' : Context) (m : Model) :
    Prop where
  context : HdlSim.Renames r l ns m.context c'
  ports : ∀ d ∈ m.ports, d.idents ⊆ ns
  body : m.body.Within ns
  scope : m.scope.idents ⊆ ns

namespace Model.Renames

variable {m : Model} {c' : Context} (h : m.Renames r l ns c')

include h

/-- The sites of a renamed model are the renamed sites. -/
theorem site (place : Place) (object : String) :
    Site.Renames r l ns (m.site place object) ((m.rename r c').site place object) :=
  ⟨h.context, rfl, h.scope, rfl, rfl⟩

/-- A renamed model has the same name. -/
theorem unit : (m.rename r c').context.unit = m.context.unit := h.context.unit

/-- A renamed model has the same name for its bundle of proxies. -/
theorem io : (m.rename r c').context.io = m.context.io := h.context.io

/-- The names in declarations can be renamed. -/
theorem decls_within : ∀ d ∈ m.decls, d.idents ⊆ ns := by
  intro d hd
  rcases List.mem_append.mp hd with hport | hvar
  · exact h.ports d hport
  · exact h.body.vars d hvar

/-- The name of a constant can be renamed. -/
theorem constant_mem {d : Variable} (hd : d ∈ m.constants) : d.name ∈ ns :=
  Variable.name_mem (h.decls_within d (List.mem_of_mem_filter hd))

/-- The name of a signal can be renamed. -/
theorem signal_mem {d : Variable} (hd : d ∈ m.signals) : d.name ∈ ns :=
  Variable.name_mem (h.decls_within d (List.mem_of_mem_filter hd))

/-- The name of a process can be renamed. -/
theorem label_mem {p : ProcessDecl} (hp : p ∈ m.body.processes) : p.label ∈ ns :=
  h.body.processes p hp (List.mem_cons_self ..)

/-- The names of an instance and its module can be renamed. -/
theorem unit_mem {i : Instance} (hi : i ∈ m.body.instances) :
    i.name ∈ ns ∧ i.moduleName ∈ ns := by
  obtain ⟨hname, hrest⟩ := List.cons_subset.mp (h.body.instances i hi)
  exact ⟨hname, (List.cons_subset.mp hrest).1⟩

omit h

/-- The declarations of a renamed model. -/
theorem decls_rename : (m.rename r c').decls = m.decls.map (Variable.rename r) :=
  List.map_append.symm

/-- The constants of a renamed model. -/
theorem constants_rename :
    (m.rename r c').constants = m.constants.map (Variable.rename r) := by
  unfold constants
  rw [decls_rename, List.filter_map]
  rfl

/-- The signals of a renamed model. -/
theorem signals_rename : (m.rename r c').signals = m.signals.map (Variable.rename r) := by
  unfold signals
  rw [decls_rename, List.filter_map]
  rfl

include h

/-- Imports are written alike. -/
theorem imports (settings : Settings) : (m.rename r c').imports settings = m.imports settings := by
  have hhosts := h.context.hostsOf (Instance.rename r) Instance.moduleName (fun _ => rfl)
    fun _ hi => (h.unit_mem hi).2
  have hnames : (m.rename r c').importNames = m.importNames := by
    unfold importNames
    exact congrArg (· >>= _) hhosts
  unfold Model.imports
  rw [hnames]

/-- Something for the identifier of each constant. -/
theorem constantHosts (next : HostName → Script Unit) :
    forEach (m.rename r c').constants (fun d => liftM (c'.host d.name) >>= next) =
      forEach m.constants fun d => liftM (m.context.host d.name) >>= next := by
  rw [constants_rename]
  exact h.context.forEachHost (Variable.rename r) Variable.name (fun _ => rfl)
    (fun _ hd => h.constant_mem hd) next

/-- Something for the identifier of each signal. -/
theorem signalHosts (next : HostName → Script Unit) :
    forEach (m.rename r c').signals (fun d => liftM (c'.host d.name) >>= next) =
      forEach m.signals fun d => liftM (m.context.host d.name) >>= next := by
  rw [signals_rename]
  exact h.context.forEachHost (Variable.rename r) Variable.name (fun _ => rfl)
    (fun _ hd => h.signal_mem hd) next

/-- Something for the identifier of each instance. -/
theorem unitHosts (next : HostName → Script Unit) :
    forEach (m.rename r c').body.instances (fun i => liftM (c'.host i.name) >>= next) =
      forEach m.body.instances fun i => liftM (m.context.host i.name) >>= next :=
  h.context.forEachHost (Instance.rename r) Instance.name (fun _ => rfl)
    (fun _ hi => (h.unit_mem hi).1) next

/-- Fields are written alike. -/
theorem fieldLines : (m.rename r c').fieldLines = m.fieldLines := by
  unfold Model.fieldLines
  refine bind_congr fun _ => bind_eq_bind (congrArg _ ?_) fun _ => bind_eq_bind ?_ fun _ => ?_
  · rw [h.io]
  · exact h.constantHosts _
  · refine forEach_map_congr fun i hi => ?_
    obtain ⟨hname, htype⟩ := h.unit_mem hi
    exact lift_eq_lift (h.context.host hname) fun _ =>
      lift_eq_lift (h.context.host htype) fun _ => rfl

/-- The structures are written alike. -/
theorem structures : (m.rename r c').structures = m.structures := by
  have hproxies : (m.rename r c').proxyLines = m.proxyLines := h.signalHosts _
  rw [structures_eq, structures_eq, h.unit, h.io, h.fieldLines, hproxies]
  rfl

/-- The function for a type is written alike. -/
theorem typeFunction {t : TypeItem} (ht : t ∈ m.body.types) :
    (m.rename r c').typeFunction (t.rename r) = m.typeFunction t := by
  have hidents := h.body.types t ht
  have hn := TypeItem.name_mem hidents
  unfold Model.typeFunction
  rw [TypeItem.name_rename, TypeItem.doc_rename]
  refine lift_eq_lift (h.context.name _ hn) fun name => ?_
  refine lift_eq_lift ((h.site _ _).typeItemValue hidents) fun value => ?_
  refine bind_congr fun _ => ?_
  exact lift_eq_lift (h.context.host hn) fun _ => rfl

/-- A declaration is written alike. -/
theorem declaration (kind : String) {d : Variable} (hd : d.idents ⊆ ns) :
    (m.rename r c').declaration kind (d.rename r) = m.declaration kind d := by
  obtain ⟨n, doc, type, value, isConst, direction⟩ := d
  obtain ⟨hn, hrest⟩ := List.cons_subset.mp hd
  obtain ⟨htype, hvalue⟩ := List.append_subset.mp hrest
  unfold Model.declaration
  refine lift_eq_lift (h.context.name n hn) fun name => ?_
  refine lift_eq_lift (h.context.host hn) fun host => ?_
  refine bind_congr fun _ => ?_
  have hsite := h.site .constructor (kind ++ " `" ++ name ++ "`")
  cases isConst with
  | true =>
      cases value with
      | none => exact congrArg Script.fail (hsite.defect _)
      | some e =>
          have he : e.idents ⊆ ns := (List.append_subset.mp hvalue).1
          exact lift_eq_lift (hsite.value e he) fun _ => rfl
  | false =>
      refine lift_eq_lift (hsite.typeValue type htype) fun _ => ?_
      exact lift_eq_lift (hsite.initValue hvalue) fun _ => rfl

/-- An instance is written alike. -/
theorem instanceLocal {i : Instance} (hi : i ∈ m.body.instances) :
    (m.rename r c').instanceLocal (i.rename r) = m.instanceLocal i := by
  obtain ⟨hname, htype⟩ := h.unit_mem hi
  unfold Model.instanceLocal
  refine bind_congr fun _ => ?_
  refine lift_eq_lift (h.context.host hname) fun _ => ?_
  refine lift_eq_lift (h.context.host htype) fun _ => ?_
  exact lift_eq_lift (h.context.name _ hname) fun _ => rfl

omit h in
/-- A heading is written alike. -/
theorem headed {α : Type} (heading : String) {xs : List α} {u : α → α} {f g : α → Script Unit}
    (hxs : ∀ x ∈ xs, f (u x) = g x) :
    Model.headed heading (xs.map u) f = Model.headed heading xs g := by
  unfold Model.headed
  rw [List.isEmpty_map, forEach_map_congr hxs]

/-- The model as a value is written alike. -/
theorem selfValue : (m.rename r c').selfValue = m.selfValue := by
  have hio : (m.rename r c').ioValue = m.ioValue := by
    have hempty : (m.rename r c').signals.isEmpty = m.signals.isEmpty := by
      rw [signals_rename, List.isEmpty_map]
    have hfields : forEach (m.rename r c').signals (fun d => (m.rename r c').fieldInit d.name) =
        forEach m.signals fun d => m.fieldInit d.name := h.signalHosts _
    unfold ioValue
    rw [h.io, hempty, hfields]
  unfold Model.selfValue
  refine bind_congr fun _ => bind_congr fun _ => bind_eq_bind hio fun _ => ?_
  refine bind_eq_bind (h.constantHosts _) fun _ => ?_
  exact bind_eq_bind (h.unitHosts _) fun _ => rfl

/-- The functions that make a model are written alike. -/
theorem constructor : (m.rename r c').constructor = m.constructor := by
  have htypes : forEach (m.rename r c').body.types (m.rename r c').typeFunction =
      forEach m.body.types m.typeFunction :=
    forEach_map_congr fun _ ht => h.typeFunction ht
  have hnew : (m.rename r c').newBody = m.newBody := by
    unfold Model.newBody
    refine bind_congr fun _ => bind_eq_bind ?_ fun _ => bind_eq_bind ?_ fun _ =>
      bind_eq_bind ?_ fun _ => h.selfValue
    · exact headed _ fun d hd => h.declaration _ (h.ports d hd)
    · exact headed _ fun d hd => h.declaration _ (h.body.vars d hd)
    · exact headed _ fun _ hi => h.instanceLocal hi
  rw [constructor_eq, constructor_eq, makers, makers, h.unit, htypes, hnew]

/-- The connections of an instance are written alike. -/
theorem connections {i : Instance} (hi : i ∈ m.body.instances) :
    (m.rename r c').connections (i.rename r) = m.connections i := by
  obtain ⟨hname, -⟩ := h.unit_mem hi
  unfold Model.connections
  refine lift_eq_lift (h.context.name _ hname) fun name => ?_
  refine lift_eq_lift (h.context.host hname) fun unit => ?_
  refine forEach_map_congr fun b hb => ?_
  have hbinding : b.idents ⊆ ns := fun n hn =>
    h.body.instances i hi
      (List.mem_cons_of_mem _ (List.mem_cons_of_mem _ (List.mem_flatMap.mpr ⟨b, hb, hn⟩)))
  obtain ⟨hport, hsignal⟩ := List.cons_subset.mp hbinding
  refine lift_eq_lift ((h.site _ _).proxyOf (hsignal (List.mem_singleton_self _))) fun _ => ?_
  exact lift_eq_lift (h.context.host hport) fun _ => rfl

/-- The registration of a process is written alike. -/
theorem registration {p : ProcessDecl} (hp : p ∈ m.body.processes) :
    (m.rename r c').registration (p.rename r) = m.registration p := by
  obtain ⟨hlb, houtputs⟩ := List.append_subset.mp (h.body.processes p hp)
  obtain ⟨hlabel, hsensitivity⟩ := List.cons_subset.mp (List.append_subset.mp hlb).1
  unfold Model.registration
  refine lift_eq_lift (h.context.name _ hlabel) fun label => ?_
  have hsite := h.site .process ("process `" ++ label ++ "`")
  -- The triggers themselves are renamed; what is made of them is the same.
  refine lift_map_eq_lift (hsite.triggers p.sensitivity) fun ts hts => ?_
  have hsignals := Site.Renames.signal_mem hsensitivity hts
  refine lift_eq_lift (hsite.hostTriggers hsignals) fun _ => ?_
  have hedges : (ts.map (Trigger.rename r)).map Trigger.edge = ts.map Trigger.edge := List.map_map
  obtain ⟨_, _, _, _, outputs⟩ := p
  cases outputs with
  | none => exact congrArg Script.fail (hsite.defect _)
  | some outputs =>
      refine lift_eq_lift (hsite.proxiesOf houtputs) fun _ => ?_
      refine bind_congr fun _ => bind_congr fun _ => ?_
      refine lift_eq_lift (h.context.textsOf _ _ (fun _ => rfl) hsignals) fun _ => ?_
      refine lift_eq_lift (h.context.texts houtputs) fun _ => ?_
      rw [hedges]

/-- The registration of a model is written alike. -/
theorem wiring : (m.rename r c').wiring = m.wiring := by
  have hlabels := h.context.textsOf (ProcessDecl.rename r) ProcessDecl.label (fun _ => rfl)
    fun _ hp => h.label_mem hp
  unfold Model.wiring
  refine bind_eq_bind (forEach_map_congr fun _ hi => h.connections hi) fun _ => ?_
  rw [constants_rename, signals_rename]
  refine lift_eq_lift (h.context.textsOf _ _ (fun _ => rfl) fun _ hd => h.constant_mem hd)
    fun _ => ?_
  refine lift_eq_lift (h.context.textsOf _ _ (fun _ => rfl) fun _ hd => h.signal_mem hd)
    fun _ => ?_
  refine lift_eq_lift (h.context.hostsOf _ _ (fun _ => rfl) fun _ hd => h.signal_mem hd)
    fun _ => ?_
  refine bind_congr fun _ => lift_eq_lift hlabels fun _ => bind_congr fun _ => ?_
  refine lift_eq_lift (h.context.textsOf _ _ (fun _ => rfl) fun _ hi => (h.unit_mem hi).1)
    fun _ => ?_
  refine lift_eq_lift (h.context.hostsOf _ _ (fun _ => rfl) fun _ hi => (h.unit_mem hi).1)
    fun _ => ?_
  refine bind_congr fun _ => ?_
  refine bind_eq_bind (mapM_map_congr fun _ hp => h.registration hp) fun _ => ?_
  refine bind_eq_bind (h.unitHosts _) fun _ => ?_
  rw [← h.context.module]
  rfl

/-- The calls of processes are written alike. -/
theorem dispatch (index : Nat) {ps : List ProcessDecl} (hps : ∀ p ∈ ps, p.label ∈ ns) :
    (m.rename r c').dispatch index (ps.map (ProcessDecl.rename r)) = m.dispatch index ps := by
  induction ps generalizing index with
  | nil => rfl
  | cons p ps ih =>
      obtain ⟨hp, hrest⟩ := List.forall_mem_cons.mp hps
      exact lift_eq_lift (h.context.host hp) fun _ => bind_congr fun _ => ih _ hrest

/-- The functions that the simulator calls are written alike. -/
theorem simUnit : (m.rename r c').simUnit = m.simUnit := by
  have hdispatch : (m.rename r c').dispatch 0 (m.rename r c').body.processes =
      m.dispatch 0 m.body.processes := h.dispatch 0 fun _ hp => h.label_mem hp
  rw [simUnit_eq, simUnit_eq, callbacks, callbacks, dispatcher, dispatcher, h.unit, h.wiring,
    hdispatch]

/-- The function for a process is written alike. -/
theorem processFunction {p : ProcessDecl} (hp : p ∈ m.body.processes) :
    (m.rename r c').processFunction (p.rename r) = m.processFunction p := by
  have hbody : Stmt.identsList p.body ⊆ ns := fun n hn =>
    h.body.processes p hp (List.mem_append_left _ (List.mem_append_right _ hn))
  have hlength : (p.rename r).body.length = p.body.length := Stmt.length_renameList p.body
  unfold Model.processFunction
  refine lift_eq_lift (h.context.name _ (h.label_mem hp)) fun label => bind_congr fun _ => ?_
  refine lift_eq_lift (h.context.host (h.label_mem hp)) fun _ => bind_congr fun _ => ?_
  refine bind_eq_bind ((h.site _ _).block p.body hbody) fun _ => ?_
  rw [hlength]

/-- The functions for the processes are written alike. -/
theorem processes : (m.rename r c').processes = m.processes := by
  have hfunctions : ∀ ps, (∀ p ∈ ps, p ∈ m.body.processes) →
      (m.rename r c').processFunctions (ps.map (ProcessDecl.rename r)) = m.processFunctions ps := by
    intro ps hps
    cases ps with
    | nil => rfl
    | cons first rest =>
        obtain ⟨hfirst, hrest⟩ := List.forall_mem_cons.mp hps
        refine bind_eq_bind (h.processFunction hfirst) fun _ => ?_
        exact forEach_map_congr fun p hp => bind_congr fun _ => h.processFunction (hrest p hp)
  have hempty : (m.rename r c').body.processes = [] ↔ m.body.processes = [] := List.map_eq_nil_iff
  have hall : (m.rename r c').processFunctions (m.rename r c').body.processes =
      m.processFunctions m.body.processes := hfunctions _ fun _ hp => hp
  rw [processes_eq, processes_eq, h.unit, hall]
  simp only [hempty]

/-- **Models.**  The script of a model is the same under both tables. -/
theorem script (settings : Settings) :
    (m.rename r c').script settings = m.script settings := by
  unfold Model.script
  rw [h.imports, h.structures, h.constructor, h.simUnit, h.processes]

end Model.Renames

/-! ### Scopes and modules -/

/-- If the names in a module can be renamed, so can those in its parts. -/
theorem Module.within_of_subset {m : Module} (hm : m.idents ⊆ ns) :
    m.name ∈ ns ∧ (∀ g ∈ m.params, g.idents ⊆ ns) ∧ (∀ d ∈ m.ports, d.idents ⊆ ns) ∧
      ∀ item ∈ m.items, item.idents ⊆ ns := by
  obtain ⟨hfront, hitems⟩ := List.append_subset.mp hm
  obtain ⟨hfront, hports⟩ := List.append_subset.mp hfront
  obtain ⟨hname, hparams⟩ := List.cons_subset.mp hfront
  exact ⟨hname, fun g hg n hn => hparams (List.mem_flatMap.mpr ⟨g, hg, hn⟩),
    fun d hd n hn => hports (List.mem_flatMap.mpr ⟨d, hd, hn⟩),
    fun item hitem n hn => hitems (List.mem_flatMap.mpr ⟨item, hitem, hn⟩)⟩

namespace Renames

variable {c c' : Context} (h : Renames r l ns c c')

include h

/-- Taking a host identifier, before and after a renaming. -/
theorem reserve {taken : List (HostName × Ident)}
    (htaken : ∀ host first, taken.lookup host = some first → first ∈ ns) {n : Ident} (hn : n ∈ ns) :
    Scope.reserve c' (taken.map (Prod.map id r)) (r n) =
      List.map (Prod.map id r) <$> Scope.reserve c taken n := by
  have hlookup : ∀ host, (taken.map (Prod.map id r)).lookup host = (taken.lookup host).map r := by
    intro host
    clear htaken
    induction taken with
    | nil => rfl
    | cons entry taken ih =>
        obtain ⟨other, k⟩ := entry
        show List.lookup host ((other, r k) :: _) = (List.lookup host ((other, k) :: _)).map r
        rw [List.lookup_cons, List.lookup_cons, ih]
        cases host == other <;> rfl
  unfold Scope.reserve
  rw [h.host hn]
  cases c.host n with
  | error failure => rfl
  | ok host =>
      simp only [bind, Except.bind, hlookup]
      cases hfirst : taken.lookup host with
      | none => rfl
      | some first =>
          -- Whether the identifier was taken for the same name is the same question in both tables.
          have hmem := htaken host first hfirst
          simp only [Option.map_some, rename_inj h.undone hmem hn, h.name n hn, h.name first hmem,
            h.defect]
          split
          · rfl
          · cases c.name n <;> cases c.name first <;> rfl

/-- Names collide after a renaming exactly if they did before it, and the same ones. -/
theorem reserveAll {ks : List Ident} (hks : ks ⊆ ns) :
    Scope.reserveAll c' (ks.map r) = Scope.reserveAll c ks := by
  have hfold : ∀ taken : List (HostName × Ident),
      (∀ host first, taken.lookup host = some first → first ∈ ns) →
      (ks.map r).foldlM (Scope.reserve c') (taken.map (Prod.map id r)) =
        List.map (Prod.map id r) <$> ks.foldlM (Scope.reserve c) taken := by
    induction ks with
    | nil => exact fun _ _ => rfl
    | cons k ks ih =>
        intro taken htaken
        obtain ⟨hk, hrest⟩ := List.cons_subset.mp hks
        rw [List.map_cons, List.foldlM_cons, List.foldlM_cons, h.reserve htaken hk]
        cases hreserve : Scope.reserve c taken k with
        | error failure => rfl
        | ok next =>
            refine ih hrest next fun host first hfirst => ?_
            obtain ⟨text, -, hnext⟩ := Scope.reserve_ok hreserve
            rcases (hnext host first).mp hfirst with ⟨-, rfl⟩ | hbefore
            · exact hk
            · exact htaken host first hbefore
  have hall := hfold [] fun _ _ hfirst => nomatch hfirst
  rw [List.map_nil] at hall
  unfold Scope.reserveAll
  rw [hall]
  cases ks.foldlM (Scope.reserve c) [] <;> rfl

/-- The scope of a renamed body is the renamed scope. -/
theorem build {ports : List Variable} {body : Body} (hports : ∀ d ∈ ports, d.idents ⊆ ns)
    (hbody : body.Within ns) :
    Scope.build c' (ports.map (Variable.rename r)) (body.rename r) =
      Scope.rename r <$> Scope.build c ports body := by
  have hfields : Scope.fieldNames ports body ⊆ ns := by
    refine List.append_subset.mpr ⟨List.forall_mem_map.mpr fun d hd => ?_,
      List.forall_mem_map.mpr fun i hi => hbody.instances i hi (List.mem_cons_self ..)⟩
    rcases List.mem_append.mp hd with hport | hvar
    · exact Variable.name_mem (hports d hport)
    · exact Variable.name_mem (hbody.vars d hvar)
  have hfunctions : Scope.functionNames body ⊆ ns :=
    List.append_subset.mpr
      ⟨List.forall_mem_map.mpr fun t ht => TypeItem.name_mem (hbody.types t ht),
        List.forall_mem_map.mpr fun p hp => hbody.processes p hp (List.mem_cons_self ..)⟩
  unfold Scope.build
  rw [Scope.fieldNames_rename, Scope.functionNames_rename, Scope.ofBody_rename,
    h.reserveAll hfields, h.reserveAll hfunctions]
  cases Scope.reserveAll c (Scope.fieldNames ports body) with
  | error failure => rfl
  | ok _ => cases Scope.reserveAll c (Scope.functionNames body) <;> rfl

/-- Renamed items are sorted alike. -/
theorem sort {items : List Item} (hitems : ∀ item ∈ items, item.idents ⊆ ns) :
    Body.sort c' (items.map (Item.rename r)) =
      Body.sort c items >>= fun body => pure (body.rename r) := by
  have hfunctions : (items.map (Item.rename r)).findSome? Item.function? =
      (items.findSome? Item.function?).map (FunctionDecl.rename r) := by
    rw [List.findSome?_map, List.map_findSome?]
    refine congrArg (List.findSome? · items) (funext fun item => ?_)
    cases item <;> rfl
  unfold Body.sort
  rw [hfunctions]
  cases hfirst : items.findSome? Item.function? with
  | none => simp [Body.ofItems_rename, Body.rename, h.module]
  | some f =>
      obtain ⟨item, hitem, hfunction⟩ := List.exists_of_findSome?_eq_some hfirst
      have hname : f.name ∈ ns := by
        cases item <;> simp only [Item.function?, reduceCtorEq, Option.some.injEq] at hfunction
        subst hfunction
        exact hitems _ hitem (List.mem_cons_self ..)
      rw [Option.map_some]
      simp only [bind_assoc]
      refine lift_eq_lift (h.name _ hname) fun name => ?_
      rw [h.module, h.defect]
      rfl

/-- Generics are refused alike. -/
theorem refuseGenerics {params : List Generic} (hparams : ∀ g ∈ params, g.idents ⊆ ns) :
    Model.refuseGenerics c' (params.map (Generic.rename r)) = Model.refuseGenerics c params := by
  cases params with
  | nil => rfl
  | cons g rest =>
      have hname : g.name ∈ ns := hparams g (List.mem_cons_self ..) (List.mem_cons_self ..)
      rw [List.map_cons, Model.refuseGenerics, Model.refuseGenerics, Generic.rename,
        h.name _ hname]
      simp only [h.defect]

/-- The model of a renamed module. -/
theorem ofModule {m : Module} (hm : m.idents ⊆ ns) :
    Model.ofModule c' (m.rename r) =
      Model.ofModule c m >>= fun model => pure (model.rename r c') := by
  obtain ⟨-, hparams, hports, hitems⟩ := Module.within_of_subset hm
  unfold Model.ofModule
  simp only [bind_assoc]
  refine lift_eq_lift (h.refuseGenerics hparams) fun _ => ?_
  show Body.sort c' (m.items.map (Item.rename r)) >>= _ = _
  rw [h.sort hitems, bind_assoc]
  refine bind_congr_of_ok fun body hbody => ?_
  obtain rfl := Body.sort_ok hbody
  rw [pure_bind]
  refine lift_map_eq_lift (h.build hports (Body.within_ofItems hitems)) fun scope _ => ?_
  rw [pure_bind]
  rfl

/-- **Modules.**  The script for a module is the same under both tables. -/
theorem moduleScript (s : Session) (settings : Settings) {m : Module} (hm : m.idents ⊆ ns) :
    s.moduleScript settings c' (m.rename r) = s.moduleScript settings c m := by
  unfold Session.moduleScript
  rw [h.ofModule hm, bind_assoc]
  -- The model of an accepted module has no names but those of the module.
  refine bind_congr_of_ok fun model hmodel => ?_
  obtain rfl := Model.ofModule_ok hmodel
  obtain ⟨-, -, hports, hitems⟩ := Module.within_of_subset hm
  have hbody := Body.within_ofItems hitems
  have hrenames : Model.Renames r l ns c' ⟨c, m.doc, m.ports, Body.ofItems m.items, m.scope⟩ :=
    ⟨h, hports, hbody, Scope.ofBody_within hports hbody⟩
  rw [pure_bind, hrenames.script]

end Renames

/-! ### Name tables -/

/-- A text that is there is not added again. -/
theorem NameTable.nodup_intern {t : NameTable} (ht : t.names.Nodup) (s : String) :
    (t.intern s).1.names.Nodup := by
  unfold intern
  cases hfound : t.names.idxOf? s with
  | some i => exact ht
  | none =>
      have hnew : s ∉ t.names := List.idxOf?_eq_none_iff.mp hfound
      refine List.nodup_append.mpr ⟨ht, List.nodup_singleton s, fun a ha b hb heq => ?_⟩
      obtain rfl := List.mem_singleton.mp hb
      exact hnew (heq ▸ ha)

/-- A table issues a text only once. -/
theorem NameTable.nodup_ofList (texts : List String) : (NameTable.ofList texts).names.Nodup := by
  have hfold : ∀ t : NameTable, t.names.Nodup →
      (texts.foldl (fun t s => (t.intern s).1) t).names.Nodup := by
    induction texts with
    | nil => exact fun _ ht => ht
    | cons s texts ih => exact fun t ht => ih _ (nodup_intern ht s)
  exact hfold empty List.nodup_nil

/-- Two numbers with one text are the same. -/
theorem NameTable.resolve?_inj {names : NameTable} (hnames : names.names.Nodup) {n k : Ident}
    (hn : names.Resolves n) (h : names.resolve? n = names.resolve? k) : n = k := by
  obtain ⟨text, htext⟩ := hn
  have hlt : n.index.toNat < names.names.length := (List.getElem?_eq_some_iff.mp htext).1
  have hindex : n.index.toNat = k.index.toNat := (List.getElem?_inj hlt hnames).mp h
  obtain ⟨i⟩ := n
  obtain ⟨j⟩ := k
  exact congrArg Ident.mk (UInt32.toNat_inj.mp hindex)

/-- A renaming that keeps the texts of names can be undone on them. -/
theorem exists_undone {names other : NameTable} (hnames : names.names.Nodup)
    (hresolves : ∀ n ∈ ns, names.Resolves n)
    (hsame : ∀ n ∈ ns, other.resolve? (r n) = names.resolve? n) :
    ∃ l : Ident → Ident, ∀ n ∈ ns, l (r n) = n := by
  -- To undo a number is to look for a name that got it; all that did have one text.
  refine ⟨fun k => (ns.find? (r · == k)).getD k, fun n hn => ?_⟩
  have hfound : (ns.find? (r · == r n)).isSome := List.find?_isSome.mpr ⟨n, hn, beq_self_eq_true _⟩
  obtain ⟨k, hk⟩ := Option.isSome_iff_exists.mp hfound
  have hmem := List.mem_of_find?_eq_some hk
  have hrename : r k = r n := by simpa using List.find?_some hk
  show (ns.find? (r · == r n)).getD (r n) = n
  rw [hk, Option.getD_some]
  refine NameTable.resolve?_inj hnames (hresolves k hmem) ?_
  rw [← hsame k hmem, hrename, hsame n hn]

/-- Two tables that have the same texts for names and renamed names give related contexts. -/
private theorem renames_of_same {names other : NameTable} (hnames : names.names.Nodup)
    (hresolves : ∀ n ∈ ns, names.Resolves n)
    (hsame : ∀ n ∈ ns, other.resolve? (r n) = names.resolve? n) (module : String) :
    ∃ l, Renames r l ns ⟨names, module⟩ ⟨other, module⟩ := by
  obtain ⟨l, hl⟩ := exists_undone hnames hresolves hsame
  refine ⟨l, rfl, fun n hn => ?_, hl⟩
  obtain ⟨text, htext⟩ := hresolves n hn
  simp only [Context.name, hsame n hn, htext]

/-- **Numbers of names are not observable.**  Let every name of a module have a text in the first
table, and let the second have the same text under the number that a renaming gives to the name.
Then the module with the first table and the renamed module with the second are written alike: the
same text, the same events and the same end.  The tables may have issued their texts in any order,
and others besides. -/
theorem emit_rename_eq (texts : List String) (other : NameTable) (r : Ident → Ident)
    (settings : Settings) (s : Session) {m : Module}
    (hresolves : ∀ n ∈ m.idents, (NameTable.ofList texts).Resolves n)
    (hsame : ∀ n ∈ m.idents, other.resolve? (r n) = (NameTable.ofList texts).resolve? n) :
    s.emit other settings (m.rename r) = s.emit (NameTable.ofList texts) settings m := by
  have hname : m.name ∈ m.idents := (Module.within_of_subset (List.Subset.refl _)).1
  obtain ⟨name, hmodule⟩ := hresolves m.name hname
  obtain ⟨l, hrenames⟩ := renames_of_same (NameTable.nodup_ofList texts) hresolves hsame name
  have hother : other.resolve? (m.rename r).name = some name := (hsame m.name hname).trans hmodule
  unfold Session.emit
  rw [hother, hmodule]
  simp only [hrenames.moduleScript s settings (List.Subset.refl _)]

/-- A clocked register with an enumerated state, by two tables.  The second has the names in the
opposite order, behind another one. -/
theorem emit_rename_eq_reversed :
    let texts := ["top", "clk", "state", "State", "idle", "busy", "step"]
    let other := NameTable.ofList ["unused", "step", "busy", "idle", "State", "state", "clk", "top"]
    let r : Ident → Ident := fun n => ⟨7 - n.index⟩
    let m : Module :=
      { Module.empty ⟨0⟩ with
        ports := [.port ⟨1⟩ .input (.bits 1 false)]
        items := [
          .enumType ⟨⟨3⟩, none, [.bare ⟨4⟩, .bare ⟨5⟩]⟩,
          .varDecl (.signal ⟨2⟩ (.named ⟨3⟩)),
          .process ((ProcessDecl.ofBody ⟨6⟩ [.risingEdge ⟨1⟩]
            [.case (.name ⟨2⟩) [⟨[.name ⟨4⟩, .name ⟨4⟩], [.assign (.name ⟨2⟩) (.name ⟨5⟩)]⟩]
              (some [.assign (.name ⟨2⟩) (.name ⟨4⟩)])]).withOutputs [⟨2⟩])] }
    let session : Session := .start none
    (∀ n ∈ m.idents, (NameTable.ofList texts).Resolves n) ∧
      (∀ n ∈ m.idents, other.resolve? (r n) = (NameTable.ofList texts).resolve? n) ∧
      session.emit other .standard (m.rename r) =
        session.emit (NameTable.ofList texts) .standard m := by
  intro texts other r m session
  have hresolves : ∀ n ∈ m.idents, (NameTable.ofList texts).Resolves n := by
    have hall : ∀ n ∈ m.idents, ((NameTable.ofList texts).resolve? n).isSome := by decide
    exact fun n hn => Option.isSome_iff_exists.mp (hall n hn)
  have hsame : ∀ n ∈ m.idents, other.resolve? (r n) = (NameTable.ofList texts).resolve? n := by
    decide
  exact ⟨hresolves, hsame, emit_rename_eq texts other r .standard session hresolves hsame⟩

end HdlSim
