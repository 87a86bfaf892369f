import Sexp.Proofs.FilterRun

/-!
# Output that is cut short

A sink with limited room keeps the front of what it is offered, whichever pieces this comes in, and
refuses at the first byte that does not fit. A run of the line filter stops there: it leaves the
front of what it would have written without a limit, and fails unless everything fits.

* `Sink.writeAll_of_le`, `Sink.writeAll_of_lt`: bytes that fit, and bytes that do not.
* `Sink.writeTexts_of_le`, `Sink.writeTexts_of_lt`: the same for texts that are written one by one.
* `LineFilter.runFrom_of_le`, `LineFilter.runFrom_of_lt`: lines whose output fits, and lines whose
  output does not.
* `LineFilter.FirstFilled.run_of_ok`, `LineFilter.FirstFilled.run_of_error`: on a full sink, the
  first line that is not blank decides.
* `LineFilter.run_truncated`: a whole run.
-/

namespace Sexp

/-- The fault that a write to a full sink ends with. -/
def Refusal.fault : Refusal → StreamFault
  | .report text => .reported text
  | .takeNothing => .tookNothing

/-! ## The front of a row of bytes -/

theorem extract_append_of_le {as bs : ByteArray} {n : Nat} (h : as.size ≤ n) :
    (as ++ bs).extract 0 n = as ++ bs.extract 0 (n - as.size) := by
  have hfront : as.extract 0 n = as := by
    rw [ByteArray.ext_iff, ByteArray.data_extract]
    exact Array.extract_eq_self_of_le h
  rw [ByteArray.extract_append, Nat.zero_sub, hfront]

theorem extract_append_of_lt {as bs : ByteArray} {n : Nat} (h : n < as.size) :
    (as ++ bs).extract 0 n = as.extract 0 n := by
  rw [ByteArray.extract_append, Nat.zero_sub, Nat.sub_eq_zero_of_le (Nat.le_of_lt h),
    ByteArray.extract_same, ByteArray.append_empty]

/-! ## Sinks with a limit -/

namespace Sink

variable {written bytes : ByteArray} {room : Nat} {refusal : Refusal}

theorem writeAll_empty (s : Sink) : s.writeAll .empty = (s, none) := by
  rw [writeAll, if_pos ByteArray.size_empty]

/-- A full sink takes nothing. -/
theorem writeAll_full (h : bytes.size ≠ 0) :
    writeAll ⟨written, some 0, refusal⟩ bytes =
      (⟨written, some 0, refusal⟩, some refusal.fault) := by
  rw [writeAll, if_neg h]
  cases refusal <;> simp [offer, h, Refusal.fault]

/-- One write, after which the rest is offered again. -/
theorem writeAll_step (hroom : room ≠ 0) (hbytes : bytes.size ≠ 0) :
    writeAll ⟨written, some room, refusal⟩ bytes =
      writeAll
        ⟨written ++ bytes.extract 0 (min room bytes.size), some (room - min room bytes.size),
          refusal⟩
        (bytes.extract (min room bytes.size) bytes.size) := by
  obtain ⟨n, hn⟩ : ∃ n, min room bytes.size = n + 1 := ⟨min room bytes.size - 1, by omega⟩
  rw [writeAll, if_neg hbytes]
  simp only [offer, hroom, hn, false_and, if_false]

theorem writeAll_of_le (h : bytes.size ≤ room) :
    writeAll ⟨written, some room, refusal⟩ bytes =
      (⟨written ++ bytes, some (room - bytes.size), refusal⟩, none) := by
  by_cases hempty : bytes.size = 0
  · obtain rfl : bytes = .empty := ByteArray.size_eq_zero_iff.1 hempty
    rw [writeAll_empty, ByteArray.append_empty, ByteArray.size_empty, Nat.sub_zero]
  · rw [writeAll_step (by omega) hempty, Nat.min_eq_right h, ByteArray.extract_zero_size]
    have hrest : bytes.extract bytes.size bytes.size = .empty := by simp
    rw [hrest, writeAll_empty]

theorem writeAll_of_lt (h : room < bytes.size) :
    writeAll ⟨written, some room, refusal⟩ bytes =
      (⟨written ++ bytes.extract 0 room, some 0, refusal⟩, some refusal.fault) := by
  by_cases hfull : room = 0
  · subst hfull
    rw [writeAll_full (by omega), ByteArray.extract_same, ByteArray.append_empty]
  · have hrest : (bytes.extract room bytes.size).size ≠ 0 := by
      rw [ByteArray.size_extract]
      omega
    rw [writeAll_step hfull (by omega), Nat.min_eq_left (Nat.le_of_lt h), Nat.sub_self,
      writeAll_full hrest]

variable {texts : List String}

theorem writeTexts_of_le (h : (String.join texts).toUTF8.size ≤ room) :
    writeTexts ⟨written, some room, refusal⟩ texts =
      (⟨written ++ (String.join texts).toUTF8, some (room - (String.join texts).toUTF8.size),
        refusal⟩, none) := by
  induction texts generalizing written room with
  | nil =>
    rw [writeTexts, Text.toUTF8_join_nil, ByteArray.append_empty, ByteArray.size_empty,
      Nat.sub_zero]
  | cons text texts ih =>
    rw [Text.toUTF8_join_cons, ByteArray.size_append] at h
    rw [writeTexts, writeAll_of_le (by omega)]
    simp only []
    rw [ih (by omega), Text.toUTF8_join_cons, ByteArray.append_assoc, ByteArray.size_append,
      Nat.sub_add_eq]

theorem writeTexts_of_lt (h : room < (String.join texts).toUTF8.size) :
    writeTexts ⟨written, some room, refusal⟩ texts =
      (⟨written ++ (String.join texts).toUTF8.extract 0 room, some 0, refusal⟩,
        some refusal.fault) := by
  induction texts generalizing written room with
  | nil =>
    rw [Text.toUTF8_join_nil, ByteArray.size_empty] at h
    omega
  | cons text texts ih =>
    rw [Text.toUTF8_join_cons, ByteArray.size_append] at h
    rw [writeTexts, Text.toUTF8_join_cons]
    by_cases hfits : text.toUTF8.size ≤ room
    · rw [writeAll_of_le hfits, extract_append_of_le hfits, ← ByteArray.append_assoc]
      exact ih (by omega)
    · rw [writeAll_of_lt (by omega), extract_append_of_lt (by omega)]

end Sink

/-! ## Runs with a limit -/

namespace LineFilter

section
variable {reader : Reader} {lineno count room : Nat} {written : ByteArray} {refusal : Refusal}
  {events : Array Event} {line : String} {lines : List String} {e : Expr}

theorem runFrom_cons_of_fits (hblank : Text.isBlank line = false)
    (hread : (reader.read line).value = .ok e) (h : (e.render ++ "\n").toUTF8.size ≤ room) :
    runFrom reader lineno count ⟨written, some room, refusal⟩ events (line :: lines) =
      runFrom reader (lineno + 1) (count + 1)
        ⟨written ++ (e.render ++ "\n").toUTF8, some (room - (e.render ++ "\n").toUTF8.size),
          refusal⟩
        ((events ++ (reader.read line).events).push (.lineRead lineno e)) lines := by
  rw [← join_pieces] at h
  apply runFrom_cons_of_written hblank hread
  rw [Sink.writeTexts_of_le h, join_pieces]

theorem runFrom_cons_of_overflows (hblank : Text.isBlank line = false)
    (hread : (reader.read line).value = .ok e) (h : room < (e.render ++ "\n").toUTF8.size) :
    runFrom reader lineno count ⟨written, some room, refusal⟩ events (line :: lines) =
      ⟨.error (.output refusal.fault),
        ⟨written ++ (e.render ++ "\n").toUTF8.extract 0 room, some 0, refusal⟩,
        (events ++ (reader.read line).events).push (.lineRead lineno e)⟩ := by
  rw [← join_pieces] at h
  apply runFrom_cons_of_refused hblank hread
  rw [Sink.writeTexts_of_lt h, join_pieces]

/-- What a run on `lines` writes without a limit. -/
def rowBytes (reader : Reader) (lines : List String) : ByteArray :=
  (Text.unlines ((treesRead reader lines).map Expr.render)).toUTF8

theorem rowBytes_nil : rowBytes reader [] = .empty := by
  rw [rowBytes, treesRead, List.map_nil, Text.toUTF8_unlines_nil]

theorem rowBytes_cons_of_blank (hblank : Text.isBlank line = true) :
    rowBytes reader (line :: lines) = rowBytes reader lines := by
  rw [rowBytes, treesRead_cons_of_blank hblank, rowBytes]

theorem rowBytes_cons_of_ok (hblank : Text.isBlank line = false)
    (hread : (reader.read line).value = .ok e) :
    rowBytes reader (line :: lines) = (e.render ++ "\n").toUTF8 ++ rowBytes reader lines := by
  rw [rowBytes, treesRead_cons_of_ok hblank hread, List.map_cons, Text.toUTF8_unlines_cons,
    rowBytes]

theorem rowBytes_cons_of_error {err : ReadError} (hblank : Text.isBlank line = false)
    (hread : (reader.read line).value = .error err) :
    rowBytes reader (line :: lines) = .empty := by
  rw [rowBytes, treesRead_cons_of_error hblank hread, List.map_nil, Text.toUTF8_unlines_nil]

/-- Where everything fits, a run ends as one without a limit. -/
theorem runFrom_of_le {written' : ByteArray} {refusal' : Refusal} {events' : Array Event}
    (h : (rowBytes reader lines).size ≤ room) :
    (runFrom reader lineno count ⟨written, some room, refusal⟩ events lines).sink.written =
        written ++ rowBytes reader lines ∧
      (runFrom reader lineno count ⟨written, some room, refusal⟩ events lines).result =
        (runFrom reader lineno count ⟨written', none, refusal'⟩ events' lines).result := by
  induction lines generalizing lineno count room written events written' events' with
  | nil =>
    rw [runFrom_nil, runFrom_nil, rowBytes_nil, ByteArray.append_empty]
    exact ⟨rfl, rfl⟩
  | cons line lines ih =>
    rcases line_cases reader line with hblank | ⟨hblank, e, hread⟩ | ⟨hblank, err, hread⟩
    · rw [rowBytes_cons_of_blank hblank] at h ⊢
      rw [runFrom_blank hblank, runFrom_blank hblank]
      exact ih h
    · rw [rowBytes_cons_of_ok hblank hread, ByteArray.size_append] at h
      rw [runFrom_cons_of_fits hblank hread (by omega), runFrom_cons_of_ok hblank hread,
        rowBytes_cons_of_ok hblank hread, ← ByteArray.append_assoc]
      exact ih (by omega)
    · rw [runFrom_cons_of_error hblank hread, runFrom_cons_of_error hblank hread,
        rowBytes_cons_of_error hblank hread, ByteArray.append_empty]
      exact ⟨rfl, rfl⟩

/-- Where not everything fits, a run fills the sink and fails. -/
theorem runFrom_of_lt (h : room < (rowBytes reader lines).size) :
    (runFrom reader lineno count ⟨written, some room, refusal⟩ events lines).sink.written =
        written ++ (rowBytes reader lines).extract 0 room ∧
      (runFrom reader lineno count ⟨written, some room, refusal⟩ events lines).result =
        .error (.output refusal.fault) := by
  induction lines generalizing lineno count room written events with
  | nil =>
    rw [rowBytes_nil, ByteArray.size_empty] at h
    omega
  | cons line lines ih =>
    rcases line_cases reader line with hblank | ⟨hblank, e, hread⟩ | ⟨hblank, err, hread⟩
    · rw [rowBytes_cons_of_blank hblank] at h ⊢
      rw [runFrom_blank hblank]
      exact ih h
    · rw [rowBytes_cons_of_ok hblank hread, ByteArray.size_append] at h
      rw [rowBytes_cons_of_ok hblank hread]
      by_cases hfits : (e.render ++ "\n").toUTF8.size ≤ room
      · rw [runFrom_cons_of_fits hblank hread hfits, extract_append_of_le hfits,
          ← ByteArray.append_assoc]
        exact ih (by omega)
      · rw [runFrom_cons_of_overflows hblank hread (by omega), extract_append_of_lt (by omega)]
        exact ⟨rfl, rfl⟩
    · rw [rowBytes_cons_of_error hblank hread, ByteArray.size_empty] at h
      omega

end

/-! ## Runs on a full sink -/

/-- `line` is the first line that is not blank, and `before` are those in front of it. -/
structure FirstFilled (lines before : List String) (line : String) : Prop where
  blank : ∀ l ∈ before, Text.isBlank l = true
  filled : Text.isBlank line = false
  exists_after : ∃ after, lines = before ++ line :: after

theorem blank_or_firstFilled (lines : List String) :
    (∀ line ∈ lines, Text.isBlank line = true) ∨ ∃ before line, FirstFilled lines before line := by
  cases hfind : lines.find? fun line => !Text.isBlank line with
  | none => exact .inl (by simpa using hfind)
  | some line =>
    obtain ⟨hline, before, after, hlines, hbefore⟩ := List.find?_eq_some_iff_append.1 hfind
    exact .inr ⟨before, line, by simpa using hbefore, by simpa using hline, after, hlines⟩

theorem run_of_blank {input : String} (h : ∀ line ∈ Text.lines input, Text.isBlank line = true)
    (reader : Reader) (sink : Sink) :
    (run reader input sink).result = .ok 0 ∧ (run reader input sink).sink = sink := by
  rw [run, runFrom_of_blank h]
  exact ⟨rfl, rfl⟩

section
variable {reader : Reader} {input line : String} {before : List String} {e : Expr}
  {error : ReadError}

theorem FirstFilled.run_eq (h : FirstFilled (Text.lines input) before line) (reader : Reader)
    (sink : Sink) :
    ∃ after,
      run reader input sink = runFrom reader (before.length + 1) 0 sink #[] (line :: after) := by
  obtain ⟨after, hlines⟩ := h.exists_after
  refine ⟨after, ?_⟩
  rw [run, hlines, runFrom_append_of_blank h.blank, Nat.add_comm 1]

theorem FirstFilled.run_of_ok (h : FirstFilled (Text.lines input) before line)
    (hread : (reader.read line).value = .ok e) (refusal : Refusal) :
    (run reader input { room? := some 0, refusal }).result = .error (.output refusal.fault) ∧
      (run reader input { room? := some 0, refusal }).sink.written = .empty := by
  have hrow : 0 < (e.render ++ "\n").toUTF8.size := by
    rw [String.toUTF8_eq_toByteArray, String.toByteArray_append, ByteArray.size_append]
    exact Nat.lt_add_left _ (by decide)
  obtain ⟨after, heq⟩ := h.run_eq reader { room? := some 0, refusal }
  rw [heq, runFrom_cons_of_overflows h.filled hread hrow, ByteArray.extract_same]
  exact ⟨rfl, rfl⟩

theorem FirstFilled.run_of_error (h : FirstFilled (Text.lines input) before line)
    (hread : (reader.read line).value = .error error) (sink : Sink) :
    (run reader input sink).result = .error (.parse (before.length + 1) error) ∧
      (run reader input sink).sink = sink := by
  obtain ⟨after, heq⟩ := h.run_eq reader sink
  rw [heq, runFrom_cons_of_error h.filled hread]
  exact ⟨rfl, rfl⟩

end

/-! ## A limit on a whole run -/

/-- A run with a limit against the run without one. It leaves the front of the same output; it ends
in the same way if the whole output fits, and otherwise with the fault of the full sink, whatever
the lines behind that would have led to. -/
theorem run_truncated (reader : Reader) (input : String) (limit : Nat) (refusal : Refusal) :
    (run reader input { room? := some limit, refusal }).sink.written =
        (run reader input {}).sink.written.extract 0
          (min limit (run reader input {}).sink.written.size) ∧
      ((run reader input {}).sink.written.size ≤ limit →
        (run reader input { room? := some limit, refusal }).result =
          (run reader input {}).result) ∧
      (limit < (run reader input {}).sink.written.size →
        (run reader input { room? := some limit, refusal }).result =
          .error (.output refusal.fault)) := by
  have hwhole : (run reader input {}).sink.written = rowBytes reader (Text.lines input) :=
    written_run reader input
  rw [hwhole]
  by_cases hfits : (rowBytes reader (Text.lines input)).size ≤ limit
  · obtain ⟨hwritten, hresult⟩ :
        (run reader input { room? := some limit, refusal }).sink.written = _ ∧
          (run reader input { room? := some limit, refusal }).result = _ :=
      runFrom_of_le hfits
    refine ⟨?_, fun _ => hresult, fun hlt => absurd hfits (by omega)⟩
    rw [hwritten, ByteArray.empty_append, Nat.min_eq_right hfits, ByteArray.extract_zero_size]
  · obtain ⟨hwritten, hresult⟩ :
        (run reader input { room? := some limit, refusal }).sink.written = _ ∧
          (run reader input { room? := some limit, refusal }).result = _ :=
      runFrom_of_lt (Nat.lt_of_not_le hfits)
    refine ⟨?_, fun hle => absurd hle hfits, fun _ => hresult⟩
    rw [hwritten, ByteArray.empty_append, Nat.min_eq_left (by omega)]

/-- The limit is inside a character, and the next line is rejected: the write has failed by then. -/
theorem run_truncated_inside :
    2 < (run .strict "(é)\n)" {}).sink.written.size ∧
      (run .strict "(é)\n)" { room? := some 2, refusal := .report "closed" }).result =
        .error (.output (.reported "closed")) := by
  have hsize : 2 < (run .strict "(é)\n)" {}).sink.written.size := by
    have houtput : output .strict "(é)\n)" = "(é )\n" := by decide +kernel
    rw [written_run, houtput, String.toUTF8_eq_toByteArray, String.size_toByteArray]
    decide
  exact ⟨hsize, (run_truncated .strict "(é)\n)" 2 (.report "closed")).2.2 hsize⟩

end LineFilter

end Sexp
