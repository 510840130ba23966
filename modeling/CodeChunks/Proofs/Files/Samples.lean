import CodeChunks.Files.Binary
import CodeChunks.Proofs.Steps
import CodeChunks.Proofs.Text.Beginnings

/-! # A beginning of a text is no binary sample

Wherever an encoded text is cut off, at most the last character has lost bytes, and all that is
wrong with the bytes left of it is that others are missing: just the fault that a sample may have.
So neither the place of the cut nor the share of unprintable bytes matters to a text. -/
namespace CodeChunks

theorem Utf8.zero_notMem_encode {t : Text} (ht : '\x00' ∉ t) : 0 ∉ Utf8.encode t := by
  intro h
  obtain ⟨c, hc, hzero⟩ := List.mem_flatMap.mp h
  have hnat : c.toNat = '\x00'.toNat := Utf8.toNat_eq_of_mem_encodeChar hzero (by decide)
  exact ht (Char.toNat_inj.mp hnat ▸ hc)

namespace Detector

variable (d : Detector) {files : Files} {t : Text} {p : Path}

/-- A sample is UTF-8 or ends inside a character just if a text begins with it. -/
theorem all_isCut_iff (sample : Bytes) :
    (Utf8.fault? 0 sample).all (isCut sample) = true ↔ Utf8.Begins sample := by
  rw [Option.all_eq_true]
  constructor
  · intro h
    refine Utf8.begins_of_fault? 0 sample fun f hf => ?_
    exact of_decide_eq_true (Bool.and_eq_true_iff.mp (h f hf)).2
  · rintro ⟨t, n, rfl⟩ f hf
    obtain ⟨hreason, hstart⟩ := Utf8.fault?_take_encode t 0 n f hf
    rw [Nat.zero_add] at hstart
    rw [isCut, hreason, decide_eq_true hstart]
    rfl

/-- The unprintable bytes decide only of a sample that no text begins with. -/
theorem isBinarySample_iff {sample : Bytes} : d.isBinarySample sample = true ↔
    0 ∈ sample ∨ ¬ Utf8.Begins sample ∧ d.threshold < unprintableShare sample := by
  rw [isBinarySample, ← all_isCut_iff]
  cases sample with
  | nil => simp
  | cons x xs =>
    by_cases hzero : (x :: xs).contains 0
    · simp_all
    · by_cases hcut : (Utf8.fault? 0 (x :: xs)).all (isCut (x :: xs)) <;> simp_all

theorem isBinarySample_of_zero {sample : Bytes} (h : 0 ∈ sample) :
    d.isBinarySample sample = true :=
  d.isBinarySample_iff.mpr (.inl h)

theorem isBinarySample_take_encode (ht : '\x00' ∉ t) (n : Nat) :
    d.isBinarySample ((Utf8.encode t).take n) = false := by
  rw [Bool.eq_false_iff, Ne, isBinarySample_iff]
  rintro (hzero | ⟨hbegins, -⟩)
  · exact Utf8.zero_notMem_encode ht (List.mem_of_mem_take hzero)
  · exact hbegins ⟨t, n, rfl⟩

variable {d}

/-- A file that holds a text is not binary, as far as its name leaves that open. -/
theorem isBinary_encode (ht : '\x00' ∉ t) (hsize : -1 ≤ d.sampleSize)
    (hsuffix : ¬ binarySuffixes.contains (lowerName (Path.suffix p)))
    (hfile : files (Path.under d.base p) = .ok (Utf8.encode t)) :
    d.isBinary files p = .ok false := by
  obtain ⟨n, hsample⟩ : ∃ n, d.takeSample (Utf8.encode t) = .ok ((Utf8.encode t).take n) := by
    rw [takeSample, if_neg (by omega)]
    split
    · exact ⟨(Utf8.encode t).length, by rw [List.take_length]⟩
    · exact ⟨_, rfl⟩
  rw [isBinary, if_neg hsuffix, hfile]
  dsimp only
  rw [hsample]
  exact congrArg Except.ok (d.isBinarySample_take_encode ht n)

theorem isBinary_of_mem_partition {ps ts bs : List Path}
    (h : d.partition files ps = .ok (ts, bs)) (hp : p ∈ bs) : d.isBinary files p = .ok true := by
  induction ps generalizing ts bs with
  | nil =>
    cases h
    cases hp
  | cons q ps ih =>
    obtain ⟨binary, hq, h⟩ := exists_of_bind_eq_ok h
    obtain ⟨⟨us, cs⟩, hps, h⟩ := exists_of_bind_eq_ok h
    cases binary with
    | true =>
      cases h
      rcases List.mem_cons.mp hp with rfl | hp
      · exact hq
      · exact ih hps hp
    | false =>
      cases h
      exact ih hps hp

/-- A path that is not binary takes its place among the texts, whatever becomes of the others. -/
theorem partition_insert (hp : d.isBinary files p = .ok false) (ps qs : List Path) :
    d.partition files (ps ++ p :: qs) = do
      let (ts, bs) ← d.partition files ps
      let (us, cs) ← d.partition files qs
      return (ts ++ p :: us, bs ++ cs) := by
  induction ps with
  | nil =>
    simp only [List.nil_append, partition, hp]
    rfl
  | cons q ps ih =>
    rw [List.cons_append, partition, ih, partition]
    simp only [bind_assoc, pure_bind]
    refine bind_congr fun binary => bind_congr fun halves => bind_congr fun others => ?_
    cases binary <;> rfl

/-- A beginning of a text without zero characters is not binary, wherever it is cut off, and a
sample with a zero byte is. So a file that holds such a text is among the texts unless its suffix is
that of a binary file: telling it from the others never fails, and it takes its place whatever
becomes of them. -/
theorem text_never_binary (d : Detector) {t : Text} (ht : '\x00' ∉ t) :
    (∀ n, d.isBinarySample ((Utf8.encode t).take n) = false) ∧
    (∀ sample, 0 ∈ sample → d.isBinarySample sample = true) ∧
    ∀ (files : Files) (p : Path), -1 ≤ d.sampleSize →
      ¬ binarySuffixes.contains (lowerName (Path.suffix p)) →
      files (Path.under d.base p) = .ok (Utf8.encode t) →
        (∀ ps qs, d.partition files (ps ++ p :: qs) = do
          let (ts, bs) ← d.partition files ps
          let (us, cs) ← d.partition files qs
          return (ts ++ p :: us, bs ++ cs)) ∧
        ∀ ps ts bs, d.partition files ps = .ok (ts, bs) → p ∉ bs := by
  refine ⟨d.isBinarySample_take_encode ht, fun _ => d.isBinarySample_of_zero, ?_⟩
  intro files p hsize hsuffix hfile
  have hp : d.isBinary files p = .ok false := isBinary_encode ht hsize hsuffix hfile
  refine ⟨partition_insert hp, fun ps ts bs hps hmem => ?_⟩
  cases hp.symm.trans (isBinary_of_mem_partition hps hmem)

/-- The sample ends in the middle of the last of two characters, and no unprintable byte is
tolerated. -/
theorem text_never_binary_cut :
    '\x00' ∉ ['é', '✓'] ∧ Utf8.encode ['é', '✓'] = [0xC3, 0xA9, 0xE2, 0x9C, 0x93] ∧
    Detector.partition { sampleSize := 4, threshold := 0 }
      (fun _ => .ok (Utf8.encode ['é', '✓'])) ["a.png", "a.py"] = .ok (["a.py"], ["a.png"]) := by
  have ht : '\x00' ∉ ['é', '✓'] := by decide
  obtain ⟨-, -, hfiles⟩ := text_never_binary { sampleSize := 4, threshold := 0 } ht
  obtain ⟨hinsert, -⟩ := hfiles (fun _ => .ok (Utf8.encode ['é', '✓'])) "a.py" (by decide)
    (by decide +kernel) rfl
  refine ⟨ht, by decide, (hinsert ["a.png"] []).trans ?_⟩
  have hpng : binarySuffixes.contains (lowerName (Path.suffix "a.png")) := by decide +kernel
  rw [partition, partition, isBinary, if_pos hpng]
  rfl

end Detector

end CodeChunks
