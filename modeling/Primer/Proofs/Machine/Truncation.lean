import Primer.Proofs.Machine.Coupling

/-!
# Full outputs

An output with room for so many bytes cuts off what a run writes, and changes nothing else.

* `Coupling.cut n`: an output for `n` bytes beside one without limits.  They are near as long as all fits, and
  part with the first byte that does not.
* `lawful_cut`: a write is the same on both or parts them.
* `run_truncates`: so a run is the same on both or cut off.
-/

namespace Primer

variable {I : Type}

/-- The first `size` bytes are not touched by what follows. -/
theorem extract_append_of_le {bytes more : ByteArray} {size : Nat} (h : size ≤ bytes.size) :
    (bytes ++ more).extract 0 size = bytes.extract 0 size := by
  have hempty : more.extract (0 - bytes.size) (size - bytes.size) = .empty :=
    ByteArray.extract_eq_empty_iff.mpr (by omega)
  rw [ByteArray.extract_append, hempty, ByteArray.append_empty]

theorem extract_append_of_ge {bytes more : ByteArray} {size : Nat} (h : bytes.size ≤ size) :
    (bytes ++ more).extract 0 size = bytes ++ more.extract 0 (size - bytes.size) := by
  have hall : bytes.extract 0 size = bytes := by
    have hsize : max size bytes.size = size := by omega
    rw [← hsize]
    exact ByteArray.extract_zero_max_size
  rw [ByteArray.extract_append, hall]
  simp

namespace Coupling

/-- An output for `n` bytes beside one without limits that holds the same; behind the fault of the first one
it holds the first `n` bytes of the other. -/
def cut (n : Nat) : Coupling I Sink where
  near s s' := s'.input = s.input ∧ ∃ bytes, bytes.size ≤ n ∧ s.sink = ⟨bytes, some n, true⟩ ∧
    s'.sink = ⟨bytes, none, true⟩
  parted d s s' := d.cause = .unwritable "sink full" ∧ s.sink.written = s'.sink.written.extract 0 n ∧
    n < s'.sink.written.size ∧ s'.sink.capacity = none

/-- A write fits into both outputs, or it fills the one with the limit. -/
theorem cut_write {n : Nat} {s s' : Streams I Sink} (text : String) (h : (cut n).near s s') :
    Joined (cut n).near (cut n).parted (s.write text) (s'.write text) := by
  obtain ⟨hinput, bytes, hsize, hsink, hsink'⟩ := h
  simp only [Streams.write, Sink.writer_write, Sink.write, hsink, hsink']
  by_cases hroom : text.toUTF8.size ≤ n - bytes.size
  · have hfits : (bytes ++ text.toUTF8).size ≤ n := by
      rw [ByteArray.size_append]
      omega
    simp only [hroom, if_true]
    exact .inl ⟨rfl, hinput, bytes ++ text.toUTF8, hfits, rfl, rfl⟩
  · have hfull : n < (bytes ++ text.toUTF8).size := by
      rw [ByteArray.size_append]
      omega
    simp only [hroom, if_false]
    refine .inr ⟨⟨.unwritable "sink full", .single 0, none⟩, rfl, rfl, ?_, hfull, rfl⟩
    exact (extract_append_of_ge hsize).symm

theorem lawful_cut [Reader I] (n : Nat) : (cut n : Coupling I Sink).Lawful where
  write := cut_write
  flush := by
    rintro s s' ⟨hinput, bytes, hsize, hsink, hsink'⟩
    refine .inl ⟨?_, hinput, bytes, hsize, hsink, hsink'⟩
    simp [Streams.flush, Sink.flush, hsink, hsink']
  entry := by
    rintro s s' ⟨hinput, bytes, hsize, hsink, hsink'⟩
    unfold Streams.entry
    rw [hinput]
    exact .inl ⟨rfl, rfl, bytes, hsize, hsink, hsink'⟩
  parted_write := by
    rintro d s s' text ⟨hcause, hwritten, hlarge, hunlimited⟩
    have hmore : (s'.write text).2.sink = { s'.sink with written := s'.sink.written ++ text.toUTF8 } := by
      simp [Streams.write, Sink.write, hunlimited]
    refine ⟨hcause, ?_, ?_, ?_⟩
    · rw [hmore, hwritten, extract_append_of_le (by omega)]
    · rw [hmore, ByteArray.size_append]
      omega
    · rw [hmore]
      exact hunlimited
  parted_flush h := h
  parted_entry h := h
  parted_within _ h := h

end Coupling

namespace Machine

/-- **A full output cuts off what is written.**  A run on an output for `n` bytes and a run on one without
limits, as far as the same number of steps takes them: where the latter writes at most `n` bytes, both have
the same result and output.  Otherwise the former fails because its output is full, with the first `n` bytes
of what the latter writes. -/
theorem run_truncates [Reader I] (p : Program) (input : I) (log : Log) (n fuel : Nat) :
    let wide := (start p input Sink.unlimited log).run fuel
    let tight := (start p input (⟨.empty, some n, true⟩ : Sink) log).run fuel
    (wide.2.sink.written.size ≤ n →
      tight.1 = wide.1 ∧ tight.2.sink.written = wide.2.sink.written) ∧
    (n < wide.2.sink.written.size → ∃ d, tight.1 = some (.error d) ∧ d.cause.kind = .semantic ∧
      d.cause.message = "Could not write output: sink full" ∧
      tight.2.sink.written = wide.2.sink.written.extract 0 n) := by
  intro wide tight
  have hnear : (Coupling.cut n).Near (start p input ⟨.empty, some n, true⟩ log)
      (start p input Sink.unlimited log) :=
    ⟨rfl, rfl, rfl, rfl, rfl, .empty, Nat.zero_le n, rfl, rfl⟩
  have hrun := (Coupling.lawful_cut n).run hnear (Reachable.start input _ log).coherent.2
    (Reachable.start input Sink.unlimited log).coherent.2 fuel
  rcases hrun with ⟨hresult, -, -, -, -, -, bytes, hsize, hsink, hsink'⟩ |
    ⟨d, hd, hcause, hwritten, hlarge, -⟩
  · have hsink : tight.2.sink = ⟨bytes, some n, true⟩ := hsink
    have hsink' : wide.2.sink = ⟨bytes, none, true⟩ := hsink'
    rw [hsink, hsink']
    refine ⟨fun _ => ⟨hresult.symm, rfl⟩, fun hmore => ?_⟩
    exact absurd hsize (Nat.not_le.mpr hmore)
  · refine ⟨fun hless => absurd hlarge (Nat.not_lt.mpr hless), fun _ => ⟨d, hd, ?_, ?_, hwritten⟩⟩
    · rw [hcause]
      rfl
    · rw [hcause]
      rfl

end Machine

end Primer
