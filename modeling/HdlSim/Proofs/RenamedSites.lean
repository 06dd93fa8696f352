import HdlSim.Proofs.ModelReferences
import HdlSim.Proofs.Renaming

/-!
# Sites under a renaming

The text of a model is made of the texts of names.  Where two contexts give the names of a module
the same texts, each under numbers of its own, expressions have the same values and statements the
same scripts (`Site.Renames.value`, `Site.Renames.stmt`), failures included.
-/

namespace HdlSim

open Script

/-- **The same names under other numbers.**  These names have the same texts in both contexts, in
the second under the numbers that the renaming gives them, and it can be undone. -/
structure Renames (r l : Ident → Ident) (ns : List Ident) (c c' : Context) : Prop where
  module : c'.module = c.module
  name : ∀ n ∈ ns, c'.name (r n) = c.name n
  undone : ∀ n ∈ ns, l (r n) = n

variable {r l : Ident → Ident} {ns : List Ident}

namespace Renames

variable {c c' : Context} (h : Renames r l ns c c')

include h

/-- Failures are alike. -/
theorem defect (object : String) (cause : Cause) :
    c'.defect object cause = c.defect object cause := by
  rw [Context.defect, Context.defect, h.module]

/-- The name of the model is the same. -/
theorem unit : c'.unit = c.unit := by
  rw [Context.unit, Context.unit, h.module]

/-- The name of the bundle of proxies is the same. -/
theorem io : c'.io = c.io := by
  rw [Context.io, Context.io, h.unit]

/-- A renamed name has the same identifier. -/
theorem host {n : Ident} (hn : n ∈ ns) : c'.host (r n) = c.host n := by
  rw [Context.host, Context.host, h.name n hn]

/-- Renamed names have the same texts. -/
theorem texts {ks : List Ident} (hks : ks ⊆ ns) : c'.texts (ks.map r) = c.texts ks :=
  mapM_map_congr fun k hk => h.name k (hks hk)

/-- Renamed names have the same identifiers. -/
theorem hosts {ks : List Ident} (hks : ks ⊆ ns) : c'.hosts (ks.map r) = c.hosts ks :=
  mapM_map_congr fun _ hk => h.host (hks hk)

omit h in
/-- The names of renamed members are the renamed names. -/
theorem map_names {α : Type} {xs : List α} {u : α → α} {name : α → Ident}
    (hname : ∀ x, name (u x) = r (name x)) : (xs.map u).map name = (xs.map name).map r := by
  simp only [List.map_map, Function.comp_def, hname]

section

variable {α : Type} {xs : List α} (u : α → α) (name : α → Ident)
  (hname : ∀ x, name (u x) = r (name x)) (hxs : ∀ x ∈ xs, name x ∈ ns)

include hname hxs

/-- The texts of the names of declarations, before and after a renaming of the declarations. -/
theorem textsOf : c'.texts ((xs.map u).map name) = c.texts (xs.map name) := by
  rw [map_names hname, h.texts (List.forall_mem_map.mpr hxs)]

/-- The identifiers for the names of renamed members. -/
theorem hostsOf : c'.hosts ((xs.map u).map name) = c.hosts (xs.map name) := by
  rw [map_names hname, h.hosts (List.forall_mem_map.mpr hxs)]

/-- What is done for every declaration with its host identifier. -/
theorem forEachHost (next : HostName → Script Unit) :
    forEach (xs.map u) (fun x => liftM (c'.host (name x)) >>= next) =
      forEach xs fun x => liftM (c.host (name x)) >>= next :=
  forEach_map_congr fun x hx => by rw [hname, h.host (hxs x hx)]

end

end Renames

/-! ### Expressions -/

/-- The type of a member is one of the names in a scope. -/
private theorem Scope.type_mem {s : Scope} (hs : s.idents ⊆ ns) {n type : Ident}
    (h : s.get? n = some (.enumMember type)) : type ∈ ns := by
  refine hs (List.mem_flatMap.mpr ⟨_, mem_of_get? h, ?_⟩)
  exact List.mem_cons_of_mem _ (List.mem_singleton_self _)

/-- The same site in two contexts, under a renaming. -/
structure Site.Renames (r l : Ident → Ident) (ns : List Ident) (s s' : Site) : Prop where
  context : HdlSim.Renames r l ns s.context s'.context
  scope : s'.scope = s.scope.rename r
  within : s.scope.idents ⊆ ns
  place : s'.place = s.place
  object : s'.object = s.object

namespace Site.Renames

variable {s s' : Site} (h : Site.Renames r l ns s s')

include h

/-- Failures at a site are alike. -/
theorem defect (cause : Cause) : s'.defect cause = s.defect cause := by
  rw [Site.defect, Site.defect, h.object, h.context.defect]

/-- A renamed name denotes what the name denotes, renamed. -/
theorem get? {n : Ident} (hn : n ∈ ns) :
    s'.scope.get? (r n) = (s.scope.get? n).map (NameKind.rename r) := by
  rw [h.scope, Scope.get?_rename h.context.undone h.within hn]

/-- A name that cannot be reached is reported alike. -/
theorem outside {α : Type} {n : Ident} (hn : n ∈ ns) :
    (s'.outside (r n) : Except Failure α) = s.outside n := by
  simp only [Site.outside, h.context.name n hn, h.defect]

/-- A proxy is reached alike. -/
theorem proxyPath {n : Ident} (hn : n ∈ ns) : s'.proxyPath (r n) = s.proxyPath n := by
  simp only [Site.proxyPath, h.context.host hn, h.place, h.outside hn]

/-- A renamed name has the same proxy. -/
theorem proxyOf {n : Ident} (hn : n ∈ ns) : s'.proxyOf (r n) = s.proxyOf n := by
  unfold Site.proxyOf
  rw [h.get? hn, h.proxyPath hn, h.context.name n hn]
  simp only [h.defect]
  cases s.scope.get? n with
  | none => rfl
  | some kind => cases kind <;> rfl

/-- A renamed expression has the same proxy. -/
theorem proxy {e : Expr} (he : e.idents ⊆ ns) : s'.proxy (e.rename r) = s.proxy e := by
  unfold Site.proxy
  rw [Expr.asName?_rename, h.defect]
  cases hname : e.asName? with
  | none => rfl
  | some n => exact h.proxyOf (he (Expr.mem_idents_of_asName? hname))

/-- Renamed names have the same proxies. -/
theorem proxiesOf {ks : List Ident} (hks : ks ⊆ ns) : s'.proxiesOf (ks.map r) = s.proxiesOf ks :=
  mapM_map_congr fun _ hk => h.proxyOf (hks hk)

/-- A renamed name has the same value. -/
theorem nameValue {n : Ident} (hn : n ∈ ns) : s'.nameValue (r n) = s.nameValue n := by
  unfold Site.nameValue
  rw [h.context.host hn, h.get? hn, h.proxyPath hn, h.place, h.outside hn, h.context.name n hn]
  cases hkind : s.scope.get? n with
  | none => rfl
  | some kind =>
      cases kind with
      | enumMember type =>
          have htype := h.context.host (Scope.type_mem h.within hkind)
          simp only [Option.map_some, NameKind.rename, htype]
      | _ => rfl

/-- A literal has the same value. -/
theorem literalValue (v : Literal) : s'.literalValue v = s.literalValue v := by
  cases v with
  | bits width digits => simp only [Site.literalValue, h.defect]
  | _ => rfl

omit h

mutual

/-- **Values.**  An expression has the same value under both tables. -/
theorem value (h : Site.Renames r l ns s s') : ∀ e : Expr, e.idents ⊆ ns →
    s'.value (e.rename r) = s.value e
  | .name n, he => by
      rw [Expr.rename, Site.value, Site.value, h.nameValue (he (List.mem_singleton_self n))]
  | .literal v, _ => by
      rw [Expr.rename, Site.value, Site.value, h.literalValue]
  | .unary op a, he => by
      rw [Expr.rename, Site.value, Site.value, h.value a he]
  | .binary op a b, he => by
      obtain ⟨ha, hb⟩ := List.append_subset.mp he
      rw [Expr.rename, Site.value, Site.value, h.value a ha, h.value b hb]
  | .ternary c a b, he => by
      obtain ⟨hca, hb⟩ := List.append_subset.mp he
      obtain ⟨hc, ha⟩ := List.append_subset.mp hca
      rw [Expr.rename, Site.value, Site.value, h.value c hc, h.value a ha, h.value b hb]
  | .index a i, he => by
      obtain ⟨ha, hi⟩ := List.append_subset.mp he
      rw [Expr.rename, Site.value, Site.value, h.value a ha, h.value i hi]
  | .slice a high low, he => by
      obtain ⟨hah, hlow⟩ := List.append_subset.mp he
      obtain ⟨ha, hhigh⟩ := List.append_subset.mp hah
      rw [Expr.rename, Site.value, Site.value, h.value a ha, h.value high hhigh, h.value low hlow]
  | .concat [], _ => by
      rw [Expr.rename, Expr.renameList, Site.value, Site.value, h.defect]
  | .concat (first :: rest), he => by
      obtain ⟨hfirst, hrest⟩ := List.append_subset.mp he
      rw [Expr.rename, Expr.renameList, Site.value, Site.value, h.value first hfirst]
      exact congrArg (s.value first >>= ·) (funext fun front => h.concatValue front rest hrest)
  | .cast a t, he => by
      obtain ⟨ha, ht⟩ := List.append_subset.mp he
      rw [Expr.rename, Site.value, Site.value, h.value a ha, h.typeValue t ht]
  | .call f args, he => by
      obtain ⟨hf, hargs⟩ := List.cons_subset.mp he
      rw [Expr.rename, Site.value, Site.value, h.values args hargs, h.context.host hf]
  | .edge k a, he => by
      rw [Expr.rename, Site.value, Site.value, h.proxy (e := a) he]
  | .type t, he => by
      rw [Expr.rename, Site.value, Site.value, h.typeValue t he]

/-- Renamed expressions have the same values. -/
theorem values (h : Site.Renames r l ns s s') : ∀ es : List Expr, Expr.identsList es ⊆ ns →
    s'.values (Expr.renameList r es) = s.values es
  | [], _ => by
      rw [Expr.renameList, Site.values, Site.values]
  | e :: es, hes => by
      obtain ⟨he, hrest⟩ := List.append_subset.mp hes
      rw [Expr.renameList, Site.values, Site.values, h.value e he, h.values es hrest]

/-- A renamed concatenation has the same value. -/
theorem concatValue (h : Site.Renames r l ns s s') (front : HostExpr) :
    ∀ es : List Expr, Expr.identsList es ⊆ ns →
    s'.concatValue front (Expr.renameList r es) = s.concatValue front es
  | [], _ => by
      rw [Expr.renameList, Site.concatValue, Site.concatValue]
  | e :: es, hes => by
      obtain ⟨he, hrest⟩ := List.append_subset.mp hes
      rw [Expr.renameList, Site.concatValue, Site.concatValue, h.value e he]
      exact congrArg (s.value e >>= ·) (funext fun _ => h.concatValue _ es hrest)

/-- A renamed type has the same value. -/
theorem typeValue (h : Site.Renames r l ns s s') : ∀ t : Ty, t.idents ⊆ ns →
    s'.typeValue (t.rename r) = s.typeValue t
  | .bits width signed, _ => by
      rw [Ty.rename, Site.typeValue, Site.typeValue]
  | .array t size, ht => by
      obtain ⟨helement, hsize⟩ := List.append_subset.mp ht
      rw [Ty.rename, Site.typeValue, Site.typeValue, h.typeValue t helement, h.value size hsize]
  | .named n, ht => by
      have hn := ht (List.mem_singleton_self n)
      rw [Ty.rename, Site.typeValue, Site.typeValue, h.context.host hn, h.get? hn]
      cases s.scope.get? n with
      | none => rfl
      | some kind => cases kind <;> rfl
  | .enum _, _ => by
      rw [Ty.rename, Site.typeValue, Site.typeValue, h.defect]
  | .typeOfTypes, _ => by
      rw [Ty.rename, Site.typeValue, Site.typeValue, h.defect]

end

include h

/-- A renamed initial value has the same value. -/
theorem initValue {e : Option Expr} (he : e.toList.flatMap Expr.idents ⊆ ns) :
    s'.initValue (e.map (Expr.rename r)) = s.initValue e := by
  cases e with
  | none => rfl
  | some e =>
      have he : e.idents ⊆ ns := (List.append_subset.mp he).1
      rw [Option.map_some, Site.initValue, Site.initValue, h.value e he]

/-- Renamed members have the same texts. -/
theorem memberNames {ms : List EnumMember} (hms : ms.flatMap EnumMember.idents ⊆ ns) :
    s'.memberNames (ms.map (EnumMember.rename r)) = s.memberNames ms := by
  induction ms with
  | nil => rfl
  | cons m ms ih =>
      obtain ⟨hm, hrest⟩ := List.append_subset.mp hms
      obtain ⟨n, value⟩ := m
      cases value with
      | some e =>
          rw [List.map_cons, EnumMember.rename, Expr.renameOption, Site.memberNames,
            Site.memberNames, h.defect]
      | none =>
          rw [List.map_cons, EnumMember.rename, Expr.renameOption, Site.memberNames,
            Site.memberNames, ih hrest, h.context.name n (hm (List.mem_cons_self ..))]

/-- A renamed enumeration has the same value. -/
theorem enumValue (name : String) {ms : List EnumMember}
    (hms : ms.flatMap EnumMember.idents ⊆ ns) :
    s'.enumValue name (ms.map (EnumMember.rename r)) = s.enumValue name ms := by
  rw [Site.enumValue, Site.enumValue, h.memberNames hms]

/-- A renamed type that is declared has the same value. -/
theorem typeItemValue {t : TypeItem} (ht : t.idents ⊆ ns) :
    s'.typeItemValue (t.rename r) = s.typeItemValue t := by
  unfold Site.typeItemValue
  rw [TypeItem.name_rename, h.context.name _ (TypeItem.name_mem ht)]
  refine congrArg (s.context.name t.name >>= ·) (funext fun name => ?_)
  cases t with
  | enum d => exact h.enumValue name (List.cons_subset.mp ht).2
  | array d => exact h.typeValue (.array d.element d.size) (List.cons_subset.mp ht).2
  | synonym d =>
      obtain ⟨n, doc, type, value, isConst, direction⟩ := d
      have hvalue := (List.append_subset.mp (List.cons_subset.mp ht).2).2
      cases value with
      | none => exact congrArg Except.error (h.defect _)
      | some e =>
          have he : e.idents ⊆ ns := (List.append_subset.mp hvalue).1
          cases e with
          | type t =>
              cases t with
              | enum members =>
                  rw [Expr.idents, Ty.idents, EnumMember.identsList_eq] at he
                  have henum := h.enumValue name he
                  rw [← EnumMember.renameList_eq] at henum
                  exact henum
              | typeOfTypes => exact congrArg Except.error (h.defect _)
              | _ => exact h.typeValue _ he
          | _ => exact congrArg Except.error (h.defect _)

/-! ### Statements -/

/-- A renamed assignment has the same line. -/
theorem assignLine {target value : Expr} (htarget : target.idents ⊆ ns)
    (hvalue : value.idents ⊆ ns) :
    s'.assignLine (target.rename r) (value.rename r) = s.assignLine target value := by
  unfold Site.assignLine
  rw [h.value value hvalue]
  refine congrArg (s.value value >>= ·) (funext fun v => ?_)
  have hbad : (throw (s'.defect .badTarget) : Except Failure Line) =
      throw (s.defect .badTarget) := by rw [h.defect]
  cases target with
  | name n =>
      simp only [Expr.rename, h.proxyOf (htarget (List.mem_singleton_self n))]
  | index base i =>
      obtain ⟨hbase, hi⟩ := List.append_subset.mp htarget
      cases base with
      | name n =>
          simp only [Expr.rename, h.proxyOf (hbase (List.mem_singleton_self n)), h.value i hi]
      | _ => exact hbad
  | slice base high low =>
      obtain ⟨hbh, hlow⟩ := List.append_subset.mp htarget
      obtain ⟨hbase, hhigh⟩ := List.append_subset.mp hbh
      cases base with
      | name n =>
          simp only [Expr.rename, h.proxyOf (hbase (List.mem_singleton_self n)),
            h.value high hhigh, h.value low hlow]
      | _ => exact hbad
  | _ => exact hbad

/-- Renamed signals are invalidated alike. -/
theorem invalidate {ks : List Ident} (hks : ks ⊆ ns) : s'.invalidate (ks.map r) = s.invalidate ks :=
  forEach_map_congr fun k hk => by rw [h.proxyOf (hks hk)]

/-- The arm for a condition without a value is alike. -/
theorem invalidArm {ks : List Ident} (hks : ks ⊆ ns) :
    s'.invalidArm (ks.map r) = s.invalidArm ks := by
  cases ks with
  | nil => rfl
  | cons k ks =>
      have hwrite := h.invalidate hks
      rw [List.map_cons] at hwrite ⊢
      simp only [Site.invalidArm, hwrite]

/-- The choices that repeat an earlier one are the same ones: expressions with known names are equal
if they are after the renaming. -/
theorem repeatedChoices {seen choices : List Expr} (hseen : ∀ e ∈ seen, e.idents ⊆ ns)
    (hchoices : ∀ e ∈ choices, e.idents ⊆ ns) :
    Site.repeatedChoices (seen.map (Expr.rename r)) (choices.map (Expr.rename r)) =
      (Site.repeatedChoices seen choices).map (Expr.rename r) := by
  induction choices generalizing seen with
  | nil => rfl
  | cons e choices ih =>
      obtain ⟨he, hrest⟩ := List.forall_mem_cons.mp hchoices
      have hundone : ∀ d : Expr, d.idents ⊆ ns → (d.rename r).rename l = d := fun d hd =>
        Expr.rename_rename d fun n hn => h.context.undone n (hd hn)
      have hmem : e.rename r ∈ seen.map (Expr.rename r) ↔ e ∈ seen := by
        refine ⟨fun hmem => ?_, List.mem_map_of_mem⟩
        obtain ⟨d, hd, heq⟩ := List.mem_map.mp hmem
        have hsame : d = e := by rw [← hundone d (hseen d hd), heq, hundone e he]
        exact hsame ▸ hd
      have hnext := ih (List.forall_mem_cons.mpr ⟨he, hseen⟩) hrest
      rw [List.map_cons] at hnext
      simp only [List.map_cons, Site.repeatedChoices, hmem, hnext]
      split <;> rfl

/-- Repeated choices are reported alike. -/
theorem warnRepeated {arms : List CaseArm} (harms : CaseArm.identsList arms ⊆ ns) :
    s'.warnRepeated (CaseArm.renameList r arms) = s.warnRepeated arms := by
  have hchoices : ∀ e ∈ arms.flatMap CaseArm.choices, e.idents ⊆ ns := fun e he n hn =>
    harms (CaseArm.choices_subset arms (List.mem_flatMap.mpr ⟨e, he, hn⟩))
  have hrepeated := h.repeatedChoices (List.forall_mem_nil _) hchoices
  rw [List.map_nil] at hrepeated
  unfold Site.warnRepeated
  rw [CaseArm.choices_renameList, hrepeated, h.context.module, h.object]
  exact forEach_map_congr fun _ _ => rfl

/-- A renamed arm has the same line. -/
theorem armLine {choices : List Expr} (hchoices : choices.flatMap Expr.idents ⊆ ns) :
    s'.armLine (choices.map (Expr.rename r)) = s.armLine choices := by
  cases choices with
  | nil => exact congrArg Except.error (h.defect _)
  | cons e es =>
      have hvalues := h.values (e :: es) (Expr.identsList_eq _ ▸ hchoices)
      rw [Expr.renameList_eq] at hvalues
      rw [List.map_cons] at hvalues ⊢
      simp only [Site.armLine, hvalues]

/-- The signals of the branches that are left and of the else body. -/
theorem ifTargets {branches : List IfBranch} {elseBody : Option (List Stmt)}
    (hbranches : IfBranch.identsList branches ⊆ ns) (helse : Stmt.identsOption elseBody ⊆ ns) :
    s'.invalidArm (optionTargets (Stmt.renameOption r elseBody)
        (branchTargets (IfBranch.renameList r branches) [])) =
      s.invalidArm (optionTargets elseBody (branchTargets branches [])) := by
  have hwrites : branchWrites branches ++ optionWrites elseBody ⊆ ns :=
    List.append_subset.mpr ⟨List.Subset.trans (branchWrites_subset _) hbranches,
      List.Subset.trans (optionWrites_subset _) helse⟩
  have hmap := addTargets_map h.context.undone (List.nil_subset ns) hwrites
  rw [List.map_nil, addTargets_nil, addTargets_nil] at hmap
  rw [ifTargets_eq, ifTargets_eq, branchWrites_rename, optionWrites_rename, ← List.map_append, hmap]
  exact h.invalidArm fun n hn => hwrites (List.mem_eraseDups.mp hn)

/-- What a renamed case statement writes is invalidated alike. -/
private theorem caseTargets {arms : List CaseArm} {default : Option (List Stmt)}
    (harms : CaseArm.identsList arms ⊆ ns) (hdefault : Stmt.identsOption default ⊆ ns) :
    s'.invalidate (optionTargets (Stmt.renameOption r default)
        (armTargets (CaseArm.renameList r arms) [])) =
      s.invalidate (optionTargets default (armTargets arms [])) := by
  have hwrites : armWrites arms ++ optionWrites default ⊆ ns :=
    List.append_subset.mpr ⟨List.Subset.trans (armWrites_subset _) harms,
      List.Subset.trans (optionWrites_subset _) hdefault⟩
  have hmap := addTargets_map h.context.undone (List.nil_subset ns) hwrites
  rw [List.map_nil, addTargets_nil, addTargets_nil] at hmap
  rw [caseTargets_eq, caseTargets_eq, armWrites_rename, optionWrites_rename, ← List.map_append,
    hmap]
  exact h.invalidate fun n hn => hwrites (List.mem_eraseDups.mp hn)

omit h

mutual

/-- **Statements.**  A statement has the same script under both tables. -/
theorem stmt (h : Site.Renames r l ns s s') : ∀ st : Stmt, st.idents ⊆ ns →
    s'.stmt (st.rename r) = s.stmt st
  | .assign target value, hst => by
      obtain ⟨htarget, hvalue⟩ := List.append_subset.mp hst
      rw [Stmt.rename, Site.stmt, Site.stmt, h.assignLine htarget hvalue]
  | .ifElse branches elseBody, hst => by
      obtain ⟨hbranches, helse⟩ := List.append_subset.mp hst
      rw [Stmt.rename, Site.stmt, Site.stmt, h.optionBlock elseBody helse,
        h.branches helse branches hbranches]
  | .case selector arms default, hst => by
      obtain ⟨hsa, hdefault⟩ := List.append_subset.mp hst
      obtain ⟨hselector, harms⟩ := List.append_subset.mp hsa
      rw [Stmt.rename, Site.stmt, Site.stmt, h.warnRepeated harms, h.value selector hselector,
        h.caseTargets harms hdefault, h.arms arms harms, h.optionBlock default hdefault]
  | .block body, hst => by
      rw [Stmt.rename, Site.stmt, Site.stmt, h.block body hst]
  | .null, _ => by
      rw [Stmt.rename, Site.stmt, Site.stmt]

/-- A renamed body is written alike. -/
theorem block (h : Site.Renames r l ns s s') : ∀ body : List Stmt, Stmt.identsList body ⊆ ns →
    s'.block (Stmt.renameList r body) = s.block body
  | [], _ => by
      rw [Stmt.renameList, Site.block, Site.block]
  | first :: rest, hbody => by
      obtain ⟨hfirst, hrest⟩ := List.append_subset.mp hbody
      rw [Stmt.renameList, Site.block, Site.block, h.stmt first hfirst, h.block rest hrest]

/-- A renamed body that may be missing is written alike. -/
theorem optionBlock (h : Site.Renames r l ns s s') : ∀ body : Option (List Stmt),
    Stmt.identsOption body ⊆ ns → s'.optionBlock (Stmt.renameOption r body) = s.optionBlock body
  | none, _ => by
      rw [Stmt.renameOption, Site.optionBlock, Site.optionBlock]
  | some body, hbody => by
      rw [Stmt.renameOption, Site.optionBlock, Site.optionBlock, h.block body hbody]

/-- Renamed branches are written alike. -/
theorem branches (h : Site.Renames r l ns s s') {elseBody : Option (List Stmt)}
    (helse : Stmt.identsOption elseBody ⊆ ns) :
    ∀ branches : List IfBranch, IfBranch.identsList branches ⊆ ns →
    s'.branches (optionTargets (Stmt.renameOption r elseBody)) (s.optionBlock elseBody)
        (IfBranch.renameList r branches) =
      s.branches (optionTargets elseBody) (s.optionBlock elseBody) branches
  | [], _ => by
      rw [IfBranch.renameList, Site.branches, Site.branches, h.defect]
  | ⟨condition, body⟩ :: rest, hbranches => by
      have htargets := h.ifTargets hbranches helse
      obtain ⟨hfirst, hrest⟩ := List.append_subset.mp hbranches
      obtain ⟨hcondition, hbody⟩ := List.append_subset.mp hfirst
      rw [IfBranch.renameList, IfBranch.rename] at htargets ⊢
      rw [Site.branches, Site.branches, h.value condition hcondition, h.block body hbody,
        h.branches helse rest hrest, htargets]
      cases rest <;> rfl

/-- Renamed arms are written alike. -/
theorem arms (h : Site.Renames r l ns s s') : ∀ arms : List CaseArm, CaseArm.identsList arms ⊆ ns →
    s'.arms (CaseArm.renameList r arms) = s.arms arms
  | [], _ => by
      rw [CaseArm.renameList, Site.arms, Site.arms]
  | ⟨choices, body⟩ :: rest, harms => by
      obtain ⟨hfirst, hrest⟩ := List.append_subset.mp harms
      obtain ⟨hchoices, hbody⟩ := List.append_subset.mp hfirst
      rw [CaseArm.renameList, CaseArm.rename, Site.arms, Site.arms, h.armLine hchoices,
        h.block body hbody, h.arms rest hrest]

end

include h

/-! ### Sensitivity lists -/

/-- A renamed sensitivity list has the renamed triggers. -/
theorem triggers (es : List Expr) :
    s'.triggers (es.map (Expr.rename r)) = List.map (Trigger.rename r) <$> s.triggers es := by
  have hentry : ∀ e : Expr, (e.rename r).trigger? = e.trigger?.map (Trigger.rename r) := by
    intro e
    cases e with
    | edge k a => cases k <;> cases a <;> rfl
    | _ => rfl
  induction es with
  | nil => rfl
  | cons e es ih =>
      unfold Site.triggers at ih ⊢
      rw [List.map_cons, List.mapM_cons, List.mapM_cons, ih, hentry, h.defect]
      cases e.trigger? with
      | none => rfl
      | some t => simp

omit h in
/-- Triggers are about names in the sensitivity list. -/
theorem signal_mem {es : List Expr} (hes : es.flatMap Expr.idents ⊆ ns) {ts : List Trigger}
    (hts : s.triggers es = .ok ts) : ∀ t ∈ ts, t.signal ∈ ns := by
  intro t ht
  have hentry : some t ∈ es.map Expr.trigger? := by
    rw [Site.triggers_eq_ok_iff.mp hts]
    exact List.mem_map_of_mem ht
  obtain ⟨e, he, htrigger⟩ := List.mem_map.mp hentry
  refine hes (List.mem_flatMap.mpr ⟨e, he, ?_⟩)
  unfold Expr.trigger? at htrigger
  split at htrigger <;> cases htrigger <;> exact List.mem_singleton_self _

/-- Renamed triggers are written alike. -/
theorem hostTriggers {ts : List Trigger} (hts : ∀ t ∈ ts, t.signal ∈ ns) :
    s'.hostTriggers (ts.map (Trigger.rename r)) = s.hostTriggers ts :=
  mapM_map_congr fun t ht => by
    rw [Site.hostTrigger, Site.hostTrigger, Trigger.rename, h.proxyOf (hts t ht)]

end Site.Renames

end HdlSim
