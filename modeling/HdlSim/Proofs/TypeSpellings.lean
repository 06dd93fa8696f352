import HdlSim.Proofs.Commands
import HdlSim.Proofs.ModuleAcceptance
import Mathlib.Data.List.Forall2

/-!
# Two spellings of a type declaration

An enumeration or an array type has items of its own, and it may also be declared by a declaration
whose value is the type.  Either spelling declares the same name with the same documentation,
brings the same members into scope and defines the same value, and nothing else of a type item
reaches a model.  So a module may spell each of its types either way.
-/

namespace HdlSim

/-- **The item, perhaps in the other spelling.**  An enumeration or an array type becomes a
declaration with the type as its value.  Whether that declaration is one of a constant or has a
direction is left open. -/
inductive Item.Respells : Item → Item → Prop
  | same (item : Item) : Item.Respells item item
  | enum (d : EnumDecl) (isConst : Bool) (direction : Option Direction) :
      Item.Respells (.enumType d)
        (.varDecl ⟨d.name, d.doc, .typeOfTypes, some (.type (.enum d.members)), isConst, direction⟩)
  | array (d : ArrayDecl) (isConst : Bool) (direction : Option Direction) :
      Item.Respells (.arrayType d)
        (.varDecl ⟨d.name, d.doc, .typeOfTypes, some (.type (.array d.element d.size)), isConst,
          direction⟩)

/-- Declarations of types of which a model cannot tell one from the other. -/
structure TypeItem.Alike (t u : TypeItem) : Prop where
  name : t.name = u.name
  doc : t.doc = u.doc
  members : t.members = u.members
  value : ∀ s : Site, s.typeItemValue t = s.typeItemValue u

/-- A type is like itself. -/
theorem TypeItem.Alike.refl (t : TypeItem) : t.Alike t := ⟨rfl, rfl, rfl, fun _ => rfl⟩

/-- Bodies that differ only in how their types are declared. -/
structure Body.Alike (b b' : Body) : Prop where
  types : List.Forall₂ TypeItem.Alike b.types b'.types
  vars : b.vars = b'.vars
  processes : b.processes = b'.processes
  instances : b.instances = b'.instances

/-- What is read alike off related members is read alike off the lists. -/
theorem map_eq_map_of_forall₂ {α β γ : Type} {R : α → β → Prop} {xs : List α} {ys : List β}
    (h : List.Forall₂ R xs ys) {f : α → γ} {g : β → γ} (hfg : ∀ a b, R a b → f a = g b) :
    xs.map f = ys.map g := by
  have hrel : List.Forall₂ Eq (xs.map f) (ys.map g) := List.rel_map (fun {a b} => hfg a b) h
  rwa [List.forall₂_eq_eq_eq] at hrel

/-! ### Items -/

namespace Item.Respells

variable {item item' : Item}

/-- A type is declared in either spelling or in neither. -/
theorem typeItem? (h : item.Respells item') :
    Option.Rel TypeItem.Alike item.typeItem? item'.typeItem? := by
  cases h with
  | same =>
      cases item.typeItem? with
      | none => exact .none
      | some t => exact .some (.refl t)
  | enum d => exact .some ⟨rfl, rfl, rfl, fun _ => rfl⟩
  | array d => exact .some ⟨rfl, rfl, rfl, fun _ => rfl⟩

/-- Items that respell each other hold the same variable. -/
theorem varDecl? (h : item.Respells item') : item.varDecl? = item'.varDecl? := by
  cases h <;> rfl

/-- Items that respell each other hold the same process. -/
theorem process? (h : item.Respells item') : item.process? = item'.process? := by
  cases h <;> rfl

/-- Items that respell each other hold the same instance. -/
theorem subunit? (h : item.Respells item') : item.subunit? = item'.subunit? := by
  cases h <;> rfl

/-- Items that respell each other hold the same function. -/
theorem function? (h : item.Respells item') : item.function? = item'.function? := by
  cases h <;> rfl

end Item.Respells

/-! ### Bodies and scopes -/

section

variable {items items' : List Item}

/-- What does not look at the spelling chooses the same items. -/
theorem filterMap_respelled {α : Type} {f : Item → Option α}
    (hf : ∀ item item', Item.Respells item item' → f item = f item')
    (h : List.Forall₂ Item.Respells items items') : items.filterMap f = items'.filterMap f := by
  have hmap : ∀ items : List Item, items.filterMap f = (items.map f).filterMap id :=
    fun items => by rw [List.filterMap_map, Function.id_comp]
  rw [hmap items, hmap items', map_eq_map_of_forall₂ h hf]

/-- Other spellings of types are sorted into a body that is like the first. -/
theorem Body.ofItems_respelled (h : List.Forall₂ Item.Respells items items') :
    (Body.ofItems items).Alike (Body.ofItems items') where
  types := List.rel_filterMap (fun _ _ hitem => hitem.typeItem?) h
  vars := filterMap_respelled (fun _ _ => Item.Respells.varDecl?) h
  processes := filterMap_respelled (fun _ _ => Item.Respells.process?) h
  instances := filterMap_respelled (fun _ _ => Item.Respells.subunit?) h

/-- Sorting reports the same sizes, and refuses the same function. -/
theorem Body.sort_respelled (c : Context) (h : List.Forall₂ Item.Respells items items') :
    Body.sort c items' = Body.sort c items >>= fun _ => pure (Body.ofItems items') := by
  have hfunctions : items'.findSome? Item.function? = items.findSome? Item.function? := by
    rw [← List.head?_filterMap, ← List.head?_filterMap,
      filterMap_respelled (fun _ _ => Item.Respells.function?) h]
  have hbody := Body.ofItems_respelled h
  unfold sort
  rw [hfunctions]
  cases items.findSome? Item.function? with
  | some f => cases hname : c.name f.name <;> simp [hname] <;> rfl
  | none =>
      simp [hbody.types.length_eq, hbody.vars, hbody.processes, hbody.instances]

/-- Types that are alike bring the same names into scope. -/
theorem TypeItem.Alike.typeEntries {t u : TypeItem} (h : t.Alike u) :
    Scope.typeEntries t = Scope.typeEntries u := by
  unfold Scope.typeEntries
  rw [h.name, h.members]

/-- The members are in scope whichever way the enumeration is declared. -/
theorem Scope.build_alike (c : Context) (ports : List Variable) {b b' : Body} (h : b.Alike b') :
    Scope.build c ports b' = Scope.build c ports b := by
  have hfields : fieldNames ports b' = fieldNames ports b := by
    unfold fieldNames
    rw [h.vars, h.instances]
  have hfunctions : functionNames b' = functionNames b := by
    unfold functionNames
    rw [map_eq_map_of_forall₂ h.types fun _ _ ht => ht.name, h.processes]
  have hscope : ofBody ports b' = ofBody ports b := by
    unfold ofBody
    rw [List.flatMap_def, List.flatMap_def,
      map_eq_map_of_forall₂ h.types fun _ _ ht => ht.typeEntries, h.vars]
  unfold build
  rw [hfields, hfunctions, hscope]

end

/-! ### Models -/

namespace Model

/-- The model of a module with other spellings of its types. -/
private theorem ofModule_respelled (c : Context) (m : Module) {items : List Item}
    (h : List.Forall₂ Item.Respells m.items items) :
    ofModule c { m with items := items } =
      ofModule c m >>= fun model => pure { model with body := Body.ofItems items } := by
  unfold ofModule
  simp only [Body.sort_respelled c h, bind_assoc, pure_bind]
  refine Script.bind_eq_bind rfl fun _ => Script.bind_congr_of_ok fun body hbody => ?_
  obtain rfl := Body.sort_ok hbody
  rw [Scope.build_alike c m.ports (Body.ofItems_respelled h)]

/-- Types that are alike have the same function. -/
private theorem typeFunction_alike (m : Model) (body : Body) {t u : TypeItem} (h : t.Alike u) :
    { m with body := body }.typeFunction u = m.typeFunction t := by
  rw [typeFunction_eq, typeFunction_eq, h.name, h.doc]
  simp only [h.value]
  rfl

/-- Types that are alike one by one have the same functions. -/
private theorem typeFunctions_alike (m : Model) (body : Body) {types types' : List TypeItem}
    (h : List.Forall₂ TypeItem.Alike types types') :
    Script.forEach types' { m with body := body }.typeFunction =
      Script.forEach types m.typeFunction := by
  have hmap := map_eq_map_of_forall₂ h fun _ _ ht => (typeFunction_alike m body ht).symm
  have hforEach := congrArg (Script.forEach · id) hmap
  simpa only [Script.forEach_map, id] using hforEach.symm

/-- The calls of processes do not depend on the types. -/
private theorem dispatch_body (m : Model) (body : Body) (index : Nat)
    (processes : List ProcessDecl) :
    { m with body := body }.dispatch index processes = m.dispatch index processes := by
  induction processes generalizing index with
  | nil => rfl
  | cons p rest ih =>
      rw [dispatch, dispatch]
      exact Script.lift_eq_lift rfl fun _ => Script.bind_eq_bind rfl fun _ => ih (index + 1)

/-- Only the functions for types look at how the types are declared. -/
theorem script_alike (m : Model) (settings : Settings) {body : Body} (h : m.body.Alike body) :
    { m with body := body }.script settings = m.script settings := by
  obtain ⟨types, vars, processes, instances⟩ := body
  obtain ⟨htypes, rfl, rfl, rfl⟩ := h
  have hmakers : { m with body := { m.body with types := types } }.makers = m.makers :=
    Script.bind_eq_bind (typeFunctions_alike m _ htypes) fun _ => rfl
  have hconstructor : { m with body := { m.body with types := types } }.constructor =
      m.constructor := by
    rw [constructor_eq, constructor_eq, hmakers]
  have hsimUnit : { m with body := { m.body with types := types } }.simUnit = m.simUnit := by
    unfold simUnit
    simp only [dispatch_body]
    rfl
  unfold script
  rw [hconstructor, hsimUnit]
  rfl

end Model

/-- **Types may be spelled either way.**  Let each enumeration and each array type among the items
of a module be left as it is or be declared by a declaration with the type as its value.  Then the
module is written as before in every session: the same text, the same events and the same end, be
it a summary or a failure. -/
theorem emit_respelled_eq (s : Session) (names : NameTable) (settings : Settings) (m : Module)
    {items : List Item} (h : List.Forall₂ Item.Respells m.items items) :
    s.emit names settings { m with items := items } = s.emit names settings m := by
  have hscript : ∀ c : Context,
      s.moduleScript settings c { m with items := items } = s.moduleScript settings c m := by
    intro c
    unfold Session.moduleScript
    rw [Model.ofModule_respelled c m h, bind_assoc]
    simp only [pure_bind]
    refine Script.bind_congr_of_ok fun model hmodel => ?_
    have hbody : model.body.Alike (Body.ofItems items) := by
      rw [Model.ofModule_ok hmodel]
      exact Body.ofItems_respelled h
    rw [model.script_alike settings hbody]
  unfold Session.emit
  simp only [hscript]

/-- A state whose members a process uses and an array type, both in the other spelling. -/
theorem emit_respelled_eq_state :
    let names : NameTable := ⟨["top", "state", "State", "idle", "busy", "Row", "step"]⟩
    let session : Session := .start none
    let uses : List Item := [
      .varDecl (.signal ⟨1⟩ (.named ⟨2⟩)),
      .process ((ProcessDecl.ofBody ⟨6⟩ [.name ⟨1⟩]
        [.ifElse [⟨.name ⟨1⟩, [.assign (.name ⟨1⟩) (.name ⟨4⟩)]⟩] none]).withOutputs [⟨1⟩])]
    let m : Module :=
      { Module.empty ⟨0⟩ with
        items := .enumType ⟨⟨2⟩, some "The state.", [.bare ⟨3⟩, .bare ⟨4⟩]⟩ ::
          .arrayType ⟨⟨5⟩, none, .bits 8 false, .literal (.int 4)⟩ :: uses }
    let items : List Item :=
      .varDecl ⟨⟨2⟩, some "The state.", .typeOfTypes,
          some (.type (.enum [.bare ⟨3⟩, .bare ⟨4⟩])), true, some .input⟩ ::
        .varDecl ⟨⟨5⟩, none, .typeOfTypes,
          some (.type (.array (.bits 8 false) (.literal (.int 4)))), false, none⟩ :: uses
    List.Forall₂ Item.Respells m.items items ∧
      session.emit names .standard { m with items := items } =
        session.emit names .standard m := by
  intro names session uses m items
  have h : List.Forall₂ Item.Respells m.items items :=
    .cons (.enum _ true (some .input)) (.cons (.array _ false none)
      (.cons (.same _) (.cons (.same _) .nil)))
  exact ⟨h, emit_respelled_eq session names .standard m h⟩

end HdlSim
