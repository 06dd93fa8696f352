import HdlSim.Proofs.Runs

/-!
# A sink with a limit

A sink that refuses text does nothing but cut it off.  What it keeps is the longest prefix of whole
characters that fits (`Text.Fitting`), and whatever writes into it stops there: the result is a
refused write if the text is too long, and otherwise the result without a limit (`CutOff`).

This is true of a single run (`Session.run_cutOff`), of a module, and of a whole design, because a
run that was not cut off leaves the same session behind.
-/

namespace HdlSim

/-- **The part of a text that fits** into a number of bytes: the longest prefix of whole
characters. -/
structure Text.Fitting (limit : Nat) (text kept : String) : Prop where
  isPrefix : kept.toList <+: text.toList
  fits : kept.utf8ByteSize ≤ limit
  longest : ∀ other : String, other.toList <+: text.toList → other.utf8ByteSize ≤ limit →
    other.toList <+: kept.toList

namespace Text

/-- A text has at least as many bytes as its beginning. -/
theorem utf8ByteSize_le_of_isPrefix {part text : String} (h : part.toList <+: text.toList) :
    part.utf8ByteSize ≤ text.utf8ByteSize := by
  obtain ⟨rest, hrest⟩ := h
  have htext : text = part ++ String.ofList rest := by
    rw [← String.toList_inj, String.toList_append, String.toList_ofList, hrest]
  rw [htext, String.utf8ByteSize_append]
  omega

/-- Of two prefixes of one text, the one with fewer bytes is a prefix of the other. -/
theorem isPrefix_of_utf8ByteSize_lt {part other text : String} (hpart : part.toList <+: text.toList)
    (hother : other.toList <+: text.toList) (hsize : part.utf8ByteSize < other.utf8ByteSize) :
    part.toList <+: other.toList := by
  by_cases hlength : part.toList.length ≤ other.toList.length
  · exact List.prefix_of_prefix_length_le hpart hother hlength
  · have hback : other.toList <+: part.toList :=
      List.prefix_of_prefix_length_le hother hpart (by omega)
    have hle := utf8ByteSize_le_of_isPrefix hback
    omega

/-- A text that fits is kept as it is. -/
theorem fitting_self {limit : Nat} {text : String} (h : text.utf8ByteSize ≤ limit) :
    Fitting limit text text :=
  ⟨List.prefix_rfl, h, fun _ hother _ => hother⟩

/-- What comes behind a text that is too long makes no difference. -/
theorem Fitting.of_isPrefix {limit : Nat} {text more kept : String} (h : Fitting limit text kept)
    (hlong : limit < text.utf8ByteSize) (hmore : text.toList <+: more.toList) :
    Fitting limit more kept := by
  refine ⟨h.isPrefix.trans hmore, h.fits, fun other hother hsize => ?_⟩
  have hpart : other.toList <+: text.toList := isPrefix_of_utf8ByteSize_lt hother hmore (by omega)
  exact h.longest other hpart hsize

/-- What is kept ends in front of the first character that does not fit. -/
theorem fitting_of_char {limit : Nat} {kept text : String} {c : Char}
    (h : kept.utf8ByteSize ≤ limit) (hchar : limit < kept.utf8ByteSize + c.utf8Size)
    (htext : (kept.push c).toList <+: text.toList) : Fitting limit text kept := by
  have hkept : kept.toList <+: (kept.push c).toList := by
    rw [String.toList_push]
    exact List.prefix_append _ _
  refine ⟨hkept.trans htext, h, fun other hother hsize => ?_⟩
  have hlt : other.utf8ByteSize < (kept.push c).utf8ByteSize := by
    rw [String.utf8ByteSize_push]
    omega
  have hpush : other.toList <+: kept.toList ++ [c] := by
    rw [← String.toList_push]
    exact isPrefix_of_utf8ByteSize_lt hother htext hlt
  rcases List.prefix_concat_iff.mp hpush with heq | hprefix
  · have hequal : other = kept.push c := by
      rw [← String.toList_inj, heq, String.toList_push]
    rw [hequal] at hlt
    omega
  · exact hprefix

end Text

open Text

namespace Sink

variable {s : Sink} {limit : Nat} (hlimit : s.limit = some limit)

include hlimit

/-- A character fits if the bytes are within the limit. -/
theorem fits_iff (c : Char) :
    s.fits c = true ↔ s.text.utf8ByteSize + c.utf8Size ≤ limit := by
  simp [fits, hlimit]

private theorem put_of_le {cs : List Char} (h : (s.text ++ String.ofList cs).utf8ByteSize ≤ limit) :
    (s.put cs).2 = true := by
  induction cs generalizing s with
  | nil => rfl
  | cons c rest ih =>
      have htext : s.text ++ String.ofList (c :: rest) = s.text.push c ++ String.ofList rest := by
        rw [← String.toList_inj]
        simp
      rw [htext] at h
      have hpush := h
      rw [String.utf8ByteSize_append, String.utf8ByteSize_push] at hpush
      have hfits : s.fits c = true := (fits_iff hlimit c).mpr (by omega)
      rw [put, if_pos hfits]
      exact ih hlimit h

/-- **Refusal.**  A sink refuses a text that is too long, and keeps the part of it that fits. -/
theorem put_of_lt {cs : List Char} (hroom : s.text.utf8ByteSize ≤ limit)
    (h : limit < (s.text ++ String.ofList cs).utf8ByteSize) :
    (s.put cs).2 = false ∧ Fitting limit (s.text ++ String.ofList cs) (s.put cs).1.text := by
  induction cs generalizing s with
  | nil =>
      rw [String.ofList_nil, String.append_empty] at h
      omega
  | cons c rest ih =>
      have htext : s.text ++ String.ofList (c :: rest) = s.text.push c ++ String.ofList rest := by
        rw [← String.toList_inj]
        simp
      rw [htext] at h ⊢
      rw [put]
      by_cases hfits : s.fits c = true
      · have hroom' : (s.text.push c).utf8ByteSize ≤ limit := by
          rw [String.utf8ByteSize_push]
          exact (fits_iff hlimit c).mp hfits
        rw [if_pos hfits]
        exact ih hlimit hroom' h
      · have hchar : limit < s.text.utf8ByteSize + c.utf8Size := by
          rw [fits_iff hlimit] at hfits
          omega
        have hprefix : (s.text.push c).toList <+: (s.text.push c ++ String.ofList rest).toList := by
          rw [String.toList_append]
          exact List.prefix_append _ _
        rw [if_neg hfits]
        exact ⟨rfl, fitting_of_char hroom hchar hprefix⟩

end Sink

/-- **One emission is the other, cut off at a limit.**  The text is the part that fits.  The result
is the same if that is all of the text, and then nothing else differs but the limit; otherwise the
result is a refused write. -/
structure CutOff {ε α : Type} (limit : Nat) (full cut : Emission ε α) : Prop where
  text : Fitting limit full.session.text cut.session.text
  result : cut.result =
    if full.session.text.utf8ByteSize ≤ limit then full.result else .error .refusedWrite
  session : full.session.text.utf8ByteSize ≤ limit →
    cut.session = full.session.withLimit (some limit)

/-- An emission that nothing was cut off from. -/
theorem cutOff_of_le {ε α : Type} {limit : Nat} {full cut : Emission ε α}
    (hsize : full.session.text.utf8ByteSize ≤ limit)
    (hsession : cut.session = full.session.withLimit (some limit))
    (hresult : cut.result = full.result) : CutOff limit full cut := by
  refine ⟨?_, ?_, fun _ => hsession⟩
  · have htext : cut.session.text = full.session.text := by
      rw [hsession]
      rfl
    rw [htext]
    exact fitting_self hsize
  · rw [if_pos hsize, hresult]

/-- An emission that was cut off, whatever would have followed. -/
theorem cutOff_of_lt {ε α : Type} {limit : Nat} {text : String} {full cut : Emission ε α}
    (hsize : limit < text.utf8ByteSize) (hmore : text.toList <+: full.session.text.toList)
    (htext : Fitting limit text cut.session.text) (hresult : cut.result = .error .refusedWrite) :
    CutOff limit full cut := by
  have hlong : ¬ full.session.text.utf8ByteSize ≤ limit := by
    have hle := utf8ByteSize_le_of_isPrefix hmore
    omega
  refine ⟨htext.of_isPrefix hsize hmore, ?_, fun hle => absurd hle hlong⟩
  rw [if_neg hlong, hresult]

namespace Session

section

variable {s : Session} {limit : Nat} (hlimit : s.writer.sink.limit = none)
  (hroom : s.text.utf8ByteSize ≤ limit)

include hlimit hroom

/-- **One run.**  A limit on the sink cuts the run of a script off, and changes nothing before. -/
theorem run_cutOff {α : Type} (script : Script α) :
    CutOff limit (s.run script) ((s.withLimit (some limit)).run script) := by
  have hfull : (s.perform script.steps).2.2 = true := perform_unlimited hlimit script.steps
  have hafter := perform_eq_after hfull
  -- Both runs put the same text into their sinks.
  have hput := (s.withLimit (some limit)).perform_put script.steps
  have htext : (s.run script).session.text =
      s.text ++ String.ofList (rendered s.writer.level script.steps) := by
    show (s.perform script.steps).1.text = _
    rw [hafter, after_text]
  by_cases hsize : (s.run script).session.text.utf8ByteSize ≤ limit
  · have hok : ((s.withLimit (some limit)).perform script.steps).2.2 = true := by
      rw [htext] at hsize
      exact (congrArg Prod.snd hput).trans (Sink.put_of_le rfl hsize)
    refine cutOff_of_le hsize ?_ ?_
    · show ((s.withLimit (some limit)).perform script.steps).1 =
        (s.perform script.steps).1.withLimit (some limit)
      rw [perform_eq_after hok, after_withLimit, hafter]
    · simp [run, hok, hfull]
  · have hlong : limit < (s.run script).session.text.utf8ByteSize := by omega
    have hcut := hlong
    rw [htext] at hcut
    obtain ⟨hok, hfitting⟩ :=
      Sink.put_of_lt (s := (s.withLimit (some limit)).writer.sink) rfl hroom hcut
    refine cutOff_of_lt hlong List.prefix_rfl ?_ ?_
    · rw [htext]
      have hkept := congrArg (fun p => p.1.text) hput
      show Fitting limit _ ((s.withLimit (some limit)).perform script.steps).1.text
      rw [show ((s.withLimit (some limit)).perform script.steps).1.text = _ from hkept]
      exact hfitting
    · have hrefused : ((s.withLimit (some limit)).perform script.steps).2.2 = false :=
        (congrArg Prod.snd hput).trans hok
      simp [run, hrefused]

/-- **One module.**  A limit on the sink cuts a module off, and changes nothing before. -/
theorem emit_cutOff (names : NameTable) (settings : Settings) (m : Module) :
    CutOff limit (s.emit names settings m)
      ((s.withLimit (some limit)).emit names settings m) := by
  unfold emit
  cases names.resolve? m.name with
  | none => exact cutOff_of_le hroom rfl rfl
  | some name =>
      have hrun := run_cutOff hlimit hroom (s.moduleScript settings ⟨names, name⟩ m)
      exact ⟨hrun.text, hrun.result, hrun.session⟩

end

/-- **Modules one after another.**  The induction is on the modules: one that is cut off is the last
one, and one that is not leaves the same session to the others. -/
theorem emitAll_cutOff {s : Session} {limit : Nat} (hlimit : s.writer.sink.limit = none)
    (hroom : s.text.utf8ByteSize ≤ limit) (names : NameTable) (settings : Settings)
    (modules : List Module) :
    CutOff limit (s.emitAll names settings modules)
      ((s.withLimit (some limit)).emitAll names settings modules) := by
  induction modules generalizing s with
  | nil => exact cutOff_of_le hroom rfl rfl
  | cons m rest ih =>
      have hfirst := emit_cutOff hlimit hroom names settings m
      have hlimitNext := s.emit_limit names settings m
      rw [hlimit] at hlimitNext
      rw [emitAll, emitAll]
      by_cases hsize : (s.emit names settings m).session.text.utf8ByteSize ≤ limit
      · have hresult := hfirst.result
        have hsession := hfirst.session hsize
        rw [if_pos hsize] at hresult
        rw [hresult, hsession]
        cases (s.emit names settings m).result with
        | error failure => exact cutOff_of_le hsize rfl rfl
        | ok summary =>
            have hrest := ih hlimitNext hsize
            refine ⟨hrest.text, ?_, hrest.session⟩
            have hresultRest := hrest.result
            simp only [hresultRest]
            split
            · rfl
            · rfl
      · have hresult := hfirst.result
        rw [if_neg hsize] at hresult
        rw [hresult]
        have hlong : limit < (s.emit names settings m).session.text.utf8ByteSize := by omega
        refine cutOff_of_lt hlong ?_ hfirst.text rfl
        split
        · exact List.prefix_rfl
        · exact emitAll_isPrefix _ names settings rest

end Session

/-- **A refusing sink only truncates.**  With a limit, a design leaves the part of its text behind
that fits, and its result is the one without a limit, or a refused write if the text is too long.
The same is true of the statements of a process. -/
theorem lowerDesign_cutOff (names : NameTable) (settings : Settings) (limit : Nat)
    (modules : List Module) :
    CutOff limit (lowerDesign names settings none modules)
        (lowerDesign names settings (some limit) modules) ∧
      ∀ (s : Site) (body : List Stmt), CutOff limit ((Session.start none).run (s.block body))
        ((Session.start (some limit)).run (s.block body)) := by
  have hroom : (Session.start none).text.utf8ByteSize ≤ limit := Nat.zero_le limit
  constructor
  · have hall := Session.emitAll_cutOff (s := .start none) rfl hroom names settings modules
    refine ⟨?_, ?_, ?_⟩
    · rw [lowerDesign_session, lowerDesign_session]
      exact hall.text
    · rw [lowerDesign_session, lowerDesign_result, lowerDesign_result]
      exact hall.result
    · rw [lowerDesign_session, lowerDesign_session]
      exact hall.session
  · intro s body
    exact Session.run_cutOff (s := .start none) rfl hroom (s.block body)

end HdlSim
