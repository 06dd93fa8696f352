import HdlSim.Proofs.Interning
import Mathlib.Data.List.Induction

/-!
# Names keep their numbers

An interner is used by interning texts one after the other (`Interner.internAll`).  All that is
known of its store is what the laws say about one text; `Interner.Holds` says what they come to: the
interner holds a list of texts without repetitions, and the numbers are their places in it.  One
step adds the text at the end of the list unless it is there already (`Interner.Holds.step`), and so
a fresh interner comes to hold the distinct texts that it was given (`Interner.internAll_new`).

Main statement: a fresh interner numbers the distinct texts `0, 1, 2, …` in order of first
occurrence, and numbers and texts stand for each other from then on (`names_keep_numbers`).  Name
tables are a store with these laws (`NameTable.lawful_store`).
-/

namespace HdlSim

/-! ### Places -/

/-- The number for the place at which a text stands first. -/
def placeOf (names : List String) (s : String) : Ident := ⟨.ofNat (names.idxOf s)⟩

/-- The number for a position stands for that position, and no other number does. -/
theorem Ident.ofPosition?_eq_some_iff {i : Nat} {n : Ident} :
    keys.ofPosition? i = some n ↔ keys.position n = i := by
  constructor
  · intro h
    obtain ⟨hlt, hn⟩ := Option.ite_none_right_eq_some.mp h
    rw [← Option.some.inj hn]
    exact UInt32.toNat_ofNat_of_lt' hlt
  · intro h
    have hback : UInt32.ofNat i = n.index := by
      rw [← h]
      exact UInt32.ofNat_toNat
    have hlt : i < UInt32.size := by
      rw [← h]
      exact n.index.toNat_lt
    exact Option.ite_none_right_eq_some.mpr ⟨hlt, by rw [hback]⟩

/-- The number of a text stands for its place, if there are enough numbers. -/
theorem position_placeOf {names : List String} {s : String} (hs : s ∈ names)
    (hfew : names.length ≤ UInt32.size) :
    Ident.keys.position (placeOf names s) = names.idxOf s := by
  have hlt := List.idxOf_lt_length_of_mem hs
  exact UInt32.toNat_ofNat_of_lt' (by omega)

/-- A text stays where it is when others are added behind it. -/
theorem placeOf_of_isPrefix {names later : List String} {s : String} (h : names <+: later)
    (hs : s ∈ names) : placeOf later s = placeOf names s := by
  obtain ⟨more, rfl⟩ := h
  rw [placeOf, placeOf, List.idxOf_append_of_mem hs]

/-- One more text at the end is seen at its own place only. -/
private theorem getElem?_concat_of_ne {names : List String} {s : String} {i : Nat}
    (h : i ≠ names.length) : (names ++ [s])[i]? = names[i]? := by
  by_cases hlt : i < names.length
  · exact List.getElem?_append_left hlt
  · have hlonger : (names ++ [s]).length ≤ i := by
      rw [List.length_append, List.length_singleton]
      omega
    rw [List.getElem?_eq_none hlonger, List.getElem?_eq_none (by omega)]

/-- One more member of a list without its repetitions. -/
theorem eraseDups_concat {α : Type} [BEq α] [LawfulBEq α] (xs : List α) (x : α) :
    (xs ++ [x]).eraseDups = if x ∈ xs then xs.eraseDups else xs.eraseDups ++ [x] := by
  rw [List.eraseDups_append]
  by_cases hx : x ∈ xs
  · simp [List.removeAll, hx]
  · simp [List.removeAll, hx, List.eraseDups_cons]

/-- What is added behind a list leaves its distinct members in front. -/
theorem eraseDups_isPrefix {α : Type} [BEq α] [LawfulBEq α] (xs ys : List α) :
    xs.eraseDups <+: (xs ++ ys).eraseDups := by
  rw [List.eraseDups_append]
  exact List.prefix_append _ _

/-- The places that the members of a list take are new ones in order, apart from repetitions. -/
theorem eraseDups_places (texts : List String) :
    (texts.map texts.eraseDups.idxOf).eraseDups = List.range texts.eraseDups.length := by
  induction texts using List.reverseRecOn with
  | nil => rfl
  | append_singleton texts s ih =>
      have hplaces :
          texts.map (texts ++ [s]).eraseDups.idxOf = texts.map texts.eraseDups.idxOf := by
        refine List.map_congr_left fun a ha => ?_
        obtain ⟨more, hmore⟩ := eraseDups_isPrefix texts [s]
        rw [← hmore, List.idxOf_append_of_mem (List.mem_eraseDups.mpr ha)]
      rw [List.map_append, List.map_singleton, eraseDups_concat, hplaces, ih, eraseDups_concat]
      by_cases hs : s ∈ texts
      · rw [if_pos hs, if_pos (List.mem_map_of_mem hs)]
      · have hlast : (texts.eraseDups ++ [s]).idxOf s = texts.eraseDups.length := by
          simp [List.idxOf_append, hs]
        have hfresh : texts.eraseDups.length ∉ texts.map texts.eraseDups.idxOf := by
          intro hmem
          rw [← List.mem_eraseDups, ih, List.mem_range] at hmem
          omega
        rw [if_neg hs, hlast, if_neg hfresh, List.length_append, List.length_singleton,
          List.range_succ]

namespace Interner

variable {S : Store Ident} {t u : Interner S} {names : List String} {s : String} {n : Ident}

/-- Interns texts one after the other: the interner after the last of them, and the name that each
was given. -/
def internAll (t : Interner S) : List String → Option (Interner S × List Ident)
  | [] => some (t, [])
  | s :: rest => do
    let (t, n) ← t.getOrIntern s
    let (t, ns) ← t.internAll rest
    return (t, n :: ns)

/-- **What an interner holds**: texts without repetitions, to which the numbers of their places
lead and no others. -/
structure Holds (t : Interner S) (names : List String) : Prop where
  nodup : names.Nodup
  few : names.length ≤ UInt32.size
  size : S.size t.contents = names.length
  resolves : ∀ n, t.tryResolve n = names[Ident.keys.position n]?

/-! ### One step -/

/-- A fresh interner holds nothing. -/
theorem holds_new (hS : S.Lawful Ident.keys) : (new S).Holds [] :=
  ⟨List.nodup_nil, Nat.zero_le _, hS.size_empty, fun n => hS.resolve?_empty n⟩

/-- The numbers that lead to a text are the numbers of places. -/
theorem Holds.tryResolve_eq_some_iff (ht : t.Holds names) :
    t.tryResolve n = some s ↔ s ∈ names ∧ n = placeOf names s := by
  rw [ht.resolves, List.getElem?_eq_some_iff]
  constructor
  · rintro ⟨hlt, rfl⟩
    have hindex : names.idxOf names[Ident.keys.position n] = Ident.keys.position n :=
      ht.nodup.idxOf_getElem _ hlt
    refine ⟨List.getElem_mem hlt, ?_⟩
    rw [placeOf, hindex]
    exact congrArg Ident.mk UInt32.ofNat_toNat.symm
  · rintro ⟨hs, rfl⟩
    have hindex := position_placeOf hs ht.few
    have hlt := List.idxOf_lt_length_of_mem hs
    simp only [hindex]
    exact ⟨hlt, List.getElem_idxOf hlt⟩

/-- A text that is held is given the number of its place, and nothing changes. -/
theorem Holds.getOrIntern_of_mem (hS : S.Lawful Ident.keys) (ht : t.Holds names) (hs : s ∈ names) :
    t.getOrIntern s = some (t, placeOf names s) := by
  have hleads : t.tryResolve (placeOf names s) = some s := ht.tryResolve_eq_some_iff.mpr ⟨hs, rfl⟩
  rw [getOrIntern, hS.intern_old hleads]
  rfl

/-- Any other text is added at the end, and given the number of that place. -/
theorem Holds.getOrIntern_of_not_mem (hS : S.Lawful Ident.keys) (ht : t.Holds names)
    (hs : s ∉ names) (hroom : names.length < UInt32.size) :
    ∃ u, t.getOrIntern s = some (u, placeOf (names ++ [s]) s) ∧ u.Holds (names ++ [s]) := by
  have hlength : (names ++ [s]).length ≤ UInt32.size := by
    rw [List.length_append]
    exact hroom
  have hplace : Ident.keys.position (placeOf (names ++ [s]) s) = names.length := by
    have hmem : s ∈ names ++ [s] := List.mem_append_right _ (List.mem_singleton_self s)
    rw [position_placeOf hmem hlength]
    simp [List.idxOf_append, hs]
  have hkey : Ident.keys.ofPosition? (S.size t.contents) = some (placeOf (names ++ [s]) s) := by
    rw [ht.size]
    exact Ident.ofPosition?_eq_some_iff.mpr hplace
  have hnew : ∀ l, S.resolve? t.contents l ≠ some s :=
    fun l hl => hs (ht.tryResolve_eq_some_iff.mp hl).1
  obtain ⟨d, hd, hsize, hleads, hothers⟩ := hS.intern_new hnew hkey
  refine ⟨⟨d⟩, by rw [getOrIntern, hd]; rfl, ?_, ?_, ?_, fun l => ?_⟩
  · refine List.nodup_append.mpr ⟨ht.nodup, List.nodup_singleton s, fun a ha b hb heq => ?_⟩
    rw [heq, List.mem_singleton.mp hb] at ha
    exact hs ha
  · exact hlength
  · rw [hsize, ht.size, List.length_append, List.length_singleton]
  · by_cases hl : l = placeOf (names ++ [s]) s
    · rw [hl, hplace, List.getElem?_concat_length]
      exact hleads
    · have hplace' : Ident.keys.position l ≠ names.length := by
        intro hlast
        have hboth := Ident.ofPosition?_eq_some_iff.mpr hlast
        rw [← ht.size, hkey] at hboth
        exact hl (Option.some.inj hboth).symm
      have hkept : tryResolve ⟨d⟩ l = t.tryResolve l := hothers l hl
      rw [hkept, ht.resolves, getElem?_concat_of_ne hplace']

/-- **One step.**  An interner that holds the distinct texts of a list holds those of the list with
one more text afterwards. -/
theorem Holds.step {texts : List String} (hS : S.Lawful Ident.keys)
    (ht : t.Holds texts.eraseDups)
    (hfew : (texts ++ [s]).eraseDups.length ≤ UInt32.size) :
    ∃ u, t.getOrIntern s = some (u, placeOf (texts ++ [s]).eraseDups s) ∧
      u.Holds (texts ++ [s]).eraseDups := by
  rw [eraseDups_concat] at hfew ⊢
  by_cases hs : s ∈ texts
  · rw [if_pos hs]
    exact ⟨t, ht.getOrIntern_of_mem hS (List.mem_eraseDups.mpr hs), ht⟩
  · rw [if_neg hs] at hfew ⊢
    rw [List.length_append] at hfew
    exact ht.getOrIntern_of_not_mem hS (mt List.mem_eraseDups.mp hs) hfew

/-! ### Runs -/

/-- A run can be made in two parts. -/
theorem internAll_append (t : Interner S) (texts more : List String) :
    t.internAll (texts ++ more) = (t.internAll texts).bind fun (u, ns) =>
      (u.internAll more).map fun (v, ks) => (v, ns ++ ks) := by
  induction texts generalizing t with
  | nil => simp [internAll]
  | cons s texts ih =>
      rw [List.cons_append, internAll, internAll]
      cases t.getOrIntern s with
      | none => rfl
      | some next =>
          simp only [Option.bind_eq_bind, Option.bind_some, ih]
          cases next.1.internAll texts with
          | none => rfl
          | some rest =>
              simp only [Option.bind_some, Option.pure_def]
              cases rest.1.internAll more <;> rfl

/-- **A run** of a fresh interner goes through if there are numbers for the distinct texts.  Every
text is given the number of its place among them. -/
theorem internAll_new (hS : S.Lawful Ident.keys) (texts : List String)
    (hfew : texts.eraseDups.length ≤ UInt32.size) :
    ∃ t, (new S).internAll texts = some (t, texts.map (placeOf texts.eraseDups)) ∧
      t.Holds texts.eraseDups := by
  -- The last text comes last, so that the texts in front of it have their numbers already.
  induction texts using List.reverseRecOn with
  | nil => exact ⟨new S, rfl, holds_new hS⟩
  | append_singleton texts s ih =>
      have hkept := eraseDups_isPrefix texts [s]
      obtain ⟨t, hrun, ht⟩ := ih (Nat.le_trans hkept.length_le hfew)
      obtain ⟨u, hstep, hu⟩ := ht.step hS hfew
      have hplaces : texts.map (placeOf texts.eraseDups) =
          texts.map (placeOf (texts ++ [s]).eraseDups) :=
        List.map_congr_left fun a ha =>
          (placeOf_of_isPrefix hkept (List.mem_eraseDups.mpr ha)).symm
      refine ⟨u, ?_, hu⟩
      rw [internAll_append, hrun, hplaces]
      simp [internAll, hstep]

/-- What the texts were given stays theirs in every longer run. -/
theorem internAll_more (hS : S.Lawful Ident.keys) {texts more : List String} {t : Interner S}
    (hrun : (new S).internAll texts = some (t, texts.map (placeOf texts.eraseDups)))
    (hfew : (texts ++ more).eraseDups.length ≤ UInt32.size) :
    ∃ later newer, t.internAll more = some (later, newer) ∧
      later.Holds (texts ++ more).eraseDups := by
  obtain ⟨later, hboth, hlater⟩ := internAll_new hS (texts ++ more) hfew
  rw [internAll_append, hrun] at hboth
  obtain ⟨⟨v, newer⟩, hmore, hv⟩ := Option.map_eq_some_iff.mp hboth
  obtain rfl : v = later := congrArg Prod.fst hv
  exact ⟨v, newer, hmore, hlater⟩

end Interner

open Interner

/-- **Names keep their numbers.**  Let texts be interned in a fresh interner, at most `2 ^ 32`
distinct ones, whatever store it has.  The numbers that they are given are the places of the texts
among the distinct ones, so that these are numbered `0, 1, 2, …` in order of first occurrence.  From
then on, whatever else is interned within that bound, a text that was given a number is given it
again without any change, and the number leads to the text; a number that was not given leads
nowhere.  So numbers that lead somewhere are equal if and only if their texts are. -/
theorem names_keep_numbers {S : Store Ident} (hS : S.Lawful Ident.keys) {texts : List String}
    (hfew : texts.eraseDups.length ≤ UInt32.size) :
    ∃ interner given, (Interner.new S).internAll texts = some (interner, given) ∧
      (given.map Ident.keys.position = texts.map texts.eraseDups.idxOf ∧
        (given.map Ident.keys.position).eraseDups = List.range texts.eraseDups.length) ∧
      (∀ s n, (s, n) ∈ texts.zip given → ∀ more,
        (texts ++ more).eraseDups.length ≤ UInt32.size →
        ∃ later newer, interner.internAll more = some (later, newer) ∧
          later.getOrIntern s = some (later, n) ∧ later.tryResolve n = some s) ∧
      (∀ n, n ∉ given → interner.tryResolve n = none) ∧
      ∀ n k s t, interner.tryResolve n = some s → interner.tryResolve k = some t →
        (n = k ↔ s = t) := by
  obtain ⟨interner, hrun, hholds⟩ := internAll_new hS texts hfew
  have hnumbers : (texts.map (placeOf texts.eraseDups)).map Ident.keys.position =
      texts.map texts.eraseDups.idxOf := by
    rw [List.map_map]
    exact List.map_congr_left fun s hs => position_placeOf (List.mem_eraseDups.mpr hs) hfew
  refine ⟨interner, _, hrun, ⟨hnumbers, hnumbers ▸ eraseDups_places texts⟩, ?_, ?_, ?_⟩
  · intro s n hpair more hmore
    obtain ⟨hs, rfl⟩ : s ∈ texts ∧ placeOf texts.eraseDups s = n := by
      have hpairs : texts.zip (texts.map (placeOf texts.eraseDups)) =
          texts.map fun s => (s, placeOf texts.eraseDups s) := by
        simpa using List.zip_map' (f := id) (g := placeOf texts.eraseDups) (l := texts)
      simpa [hpairs] using hpair
    obtain ⟨later, newer, hlonger, hlater⟩ := internAll_more hS hrun hmore
    have hkept := eraseDups_isPrefix texts more
    have hplace := placeOf_of_isPrefix hkept (List.mem_eraseDups.mpr hs)
    have hold : s ∈ (texts ++ more).eraseDups := hkept.subset (List.mem_eraseDups.mpr hs)
    rw [← hplace]
    exact ⟨later, newer, hlonger, hlater.getOrIntern_of_mem hS hold,
      hlater.tryResolve_eq_some_iff.mpr ⟨hold, rfl⟩⟩
  · intro n hn
    cases htext : interner.tryResolve n with
    | none => rfl
    | some s =>
        obtain ⟨hs, rfl⟩ := hholds.tryResolve_eq_some_iff.mp htext
        exact absurd (List.mem_map_of_mem (List.mem_eraseDups.mp hs)) hn
  · intro n k s t hn hk
    obtain ⟨-, rfl⟩ := hholds.tryResolve_eq_some_iff.mp hn
    obtain ⟨-, rfl⟩ := hholds.tryResolve_eq_some_iff.mp hk
    refine ⟨fun heq => ?_, fun heq => by rw [heq]⟩
    rw [heq, hk] at hn
    exact (Option.some.inj hn).symm

/-! ### Tables as stores -/

namespace NameTable

/-- Name tables in which no text occurs twice, as a store. -/
def store : Store Ident where
  Contents := { t : NameTable // t.names.Nodup }
  empty := ⟨empty, List.nodup_nil⟩
  size t := t.1.names.length
  intern t s := some (⟨(t.1.intern s).1, nodup_intern t.2 s⟩, (t.1.intern s).2)
  resolve? t n := t.1.resolve? n

/-- A text that is there is found, and any other is added at the end. -/
theorem intern_cases (t : NameTable) (s : String) :
    (s ∈ t.names ∧ t.intern s = (t, placeOf t.names s)) ∨
      (s ∉ t.names ∧ t.intern s = (⟨t.names ++ [s]⟩, ⟨.ofNat t.names.length⟩)) := by
  unfold intern
  cases hfound : t.names.idxOf? s with
  | none => exact .inr ⟨List.idxOf?_eq_none_iff.mp hfound, rfl⟩
  | some i =>
      have hmem : s ∈ t.names := List.isSome_idxOf?.mp (by rw [hfound]; rfl)
      have hindex : t.names.idxOf s = i := by
        rw [List.idxOf_eq_getD_idxOf?, hfound, Option.getD_some]
      exact .inl ⟨hmem, by rw [placeOf, hindex]⟩

/-- **Name tables have the laws of a store.** -/
theorem lawful_store : store.Lawful Ident.keys where
  size_empty := rfl
  resolve?_empty _ := rfl
  intern_old := by
    intro t n s h
    obtain ⟨hlt, htext⟩ := List.getElem?_eq_some_iff.mp h
    rcases t.1.intern_cases s with ⟨-, heq⟩ | ⟨hnew, -⟩
    · have hindex : t.1.names.idxOf s = n.index.toNat := by
        rw [← htext]
        exact t.2.idxOf_getElem _ hlt
      have hplace : placeOf t.1.names s = n := by
        rw [placeOf, hindex]
        exact congrArg Ident.mk UInt32.ofNat_toNat
      have hsame : (⟨(t.1.intern s).1, nodup_intern t.2 s⟩ : store.Contents) = t :=
        Subtype.ext (congrArg Prod.fst heq)
      show some (_, (t.1.intern s).2) = some (t, n)
      rw [hsame, heq, hplace]
    · exact absurd (List.mem_of_getElem? h) hnew
  intern_new := by
    intro t n s hnew hkey
    have hlength : n.index.toNat = t.1.names.length := Ident.ofPosition?_eq_some_iff.mp hkey
    have hfew : t.1.names.length ≤ UInt32.size := hlength ▸ Nat.le_of_lt n.index.toNat_lt
    rcases t.1.intern_cases s with ⟨hold, -⟩ | ⟨-, heq⟩
    · -- A text that is there would have a place, and the number of the place would lead to it.
      have hplace := position_placeOf hold hfew
      have hlt := List.idxOf_lt_length_of_mem hold
      refine absurd ?_ (hnew (placeOf t.1.names s))
      show t.1.names[Ident.keys.position (placeOf t.1.names s)]? = some s
      rw [hplace]
      exact List.getElem?_eq_some_iff.mpr ⟨hlt, List.getElem_idxOf hlt⟩
    · have hnumber : (t.1.intern s).2 = n := by
        rw [heq, ← hlength]
        exact congrArg Ident.mk UInt32.ofNat_toNat
      have hnames : (t.1.intern s).1.names = t.1.names ++ [s] := by rw [heq]
      refine ⟨⟨(t.1.intern s).1, nodup_intern t.2 s⟩, ?_, ?_, ?_, fun l hl => ?_⟩
      · show some (_, (t.1.intern s).2) = some (_, n)
        rw [hnumber]
      · show (t.1.intern s).1.names.length = _
        rw [hnames, List.length_append]
        rfl
      · show (t.1.intern s).1.names[n.index.toNat]? = some s
        rw [hnames, hlength, List.getElem?_concat_length]
      · show (t.1.intern s).1.names[l.index.toNat]? = t.1.names[l.index.toNat]?
        have hother : l.index.toNat ≠ t.1.names.length := by
          rw [← hlength]
          exact fun heq => hl (congrArg Ident.mk (UInt32.toNat_inj.mp heq))
        rw [hnames, getElem?_concat_of_ne hother]

end NameTable

/-- Three names, one of them twice, in an interner with a name table: the name is given the same
number both times, also after any one other, and the number behind the last one leads nowhere. -/
theorem names_keep_numbers_repeated :
    let texts := ["clk", "rst_n", "clk", "q"]
    NameTable.store.Lawful Ident.keys ∧ texts.eraseDups.length ≤ UInt32.size ∧
      ∃ interner given, (Interner.new NameTable.store).internAll texts = some (interner, given) ∧
        given.map Ident.keys.position = [0, 1, 0, 2] ∧
        (∀ other, ∃ later newer, interner.internAll [other] = some (later, newer) ∧
          later.getOrIntern "clk" = some (later, ⟨0⟩) ∧ later.tryResolve ⟨0⟩ = some "clk") ∧
        interner.tryResolve ⟨3⟩ = none := by
  intro texts
  have hfew : texts.eraseDups.length ≤ UInt32.size := by decide
  obtain ⟨interner, given, hrun, ⟨hnumbers, -⟩, hkept, hfree, -⟩ :=
    names_keep_numbers NameTable.lawful_store hfew
  have hgiven : given = [⟨0⟩, ⟨1⟩, ⟨0⟩, ⟨2⟩] := congrArg Prod.snd (Option.some.inj hrun).symm
  subst hgiven
  refine ⟨NameTable.lawful_store, hfew, interner, _, hrun, hnumbers.trans (by decide),
    fun other => ?_, hfree ⟨3⟩ (by decide)⟩
  have hone : (texts ++ [other]).eraseDups.length ≤ UInt32.size := by
    rw [eraseDups_concat]
    split
    · exact hfew
    · rw [List.length_append, List.length_singleton]
      decide
  exact hkept "clk" ⟨0⟩ (by decide) [other] hone

end HdlSim
