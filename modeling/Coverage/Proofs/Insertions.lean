import Coverage.Proofs.Records
import Coverage.Proofs.Spans

/-!
# Bytes that are put in

Bytes may be put into a buffer at any place that a decoder comes to.  Up to there the decoder does
the same as before, since it has read nothing further.  So if it then passes over what was put in,
it comes to the same outcome (`Scanner.run_insertAt`).
-/

namespace Coverage

universe u v

/-- A buffer with further bytes at an offset. -/
def insertAt (bytes : Bytes) (offset : Nat) (more : Bytes) : Bytes :=
  bytes.take offset ++ (more ++ bytes.drop offset)

theorem insertAt_add (bytes : Bytes) (m n : Nat) (more : Bytes) :
    insertAt bytes (m + n) more = bytes.take m ++ insertAt (bytes.drop m) n more := by
  rw [insertAt, insertAt, List.take_add, List.append_assoc, List.drop_drop]

/-! ## Headers -/

/-- Whether a file is opened depends on its magic alone. -/
theorem openFile_before {kind : FileKind} {bytes : Bytes} {c : Cursor}
    (h : openFile kind bytes = .ok c) : c.offset = wordSize ∧ c.rest = bytes.drop wordSize
      ∧ ∀ rest, openFile kind (bytes.take wordSize ++ rest) = .ok { c with rest } := by
  have hle : wordSize ≤ bytes.length := by
    refine Nat.le_of_not_lt fun hlt => ?_
    rw [openFile_of_lt kind hlt] at h
    cases h
  have hlength : (bytes.take wordSize).length = wordSize := by
    rw [List.length_take, Nat.min_eq_left hle]
  have hbefore : ∀ rest, openFile kind (bytes.take wordSize ++ rest) = _ := fun rest =>
    openFile_eq kind (by rw [List.length_append, hlength]; exact Nat.le_add_right _ _)
  simp only [List.take_left' hlength, List.drop_left' hlength] at hbefore
  rw [openFile_eq kind hle] at h
  split at h
  · next hbig =>
    cases h
    exact ⟨rfl, rfl, fun rest => by rw [hbefore, if_pos hbig]⟩
  · next hbig =>
    split at h
    · next hlittle =>
      cases h
      exact ⟨rfl, rfl, fun rest => by rw [hbefore, if_neg hbig, if_pos hlittle]⟩
    · cases h

/-- The version is read in the order that the magic shows. -/
theorem readVersion_order {c c' : Cursor} {version : Nat}
    (h : readVersion.run c = .ok version c') : c'.order = c.order := by
  obtain ⟨n, -, rfl, -⟩ := readVersion_placeless c version c' h
  rfl

/-- Records are read in the order that the magic shows. -/
theorem records?_order {kind : FileKind} {bytes : Bytes} {version : Nat} {c cursor : Cursor}
    (hopen : openFile kind bytes = .ok c) (h : records? kind bytes = some (version, cursor)) :
    cursor.order = c.order := by
  obtain ⟨c', hopen', hversion⟩ := exists_of_records? h
  cases hopen.symm.trans hopen'
  exact readVersion_order hversion

/-- What stands behind a header makes no difference to it. -/
theorem records?_insertAt {kind : FileKind} {bytes : Bytes} {version : Nat} {cursor : Cursor}
    (h : records? kind bytes = some (version, cursor)) (n : Nat) (more : Bytes) :
    records? kind (insertAt bytes (cursor.offset + n) more)
      = some (version, { cursor with rest := insertAt cursor.rest n more }) := by
  obtain ⟨c, hopen, hversion⟩ := exists_of_records? h
  obtain ⟨hoffset, hrest, hbefore⟩ := openFile_before hopen
  obtain ⟨m, hm, rfl, htakes⟩ := readVersion_placeless c version cursor hversion
  have hread := htakes c.offset (insertAt (c.rest.drop m) n more)
  rw [List.length_take, Nat.min_eq_left hm, ← insertAt_add] at hread
  have hfile := hbefore (insertAt c.rest (m + n) more)
  rw [hrest, ← insertAt_add, ← hrest, ← hoffset, ← Nat.add_assoc] at hfile
  exact records?_eq_some hfile hread

/-! ## Runs -/

/-- A decoder that passes over what was put in at a place where it comes to has the same outcome. -/
theorem Scanner.run_insertAt {σ : Type u} {ω : Type v} {step : σ → Scanner σ ω}
    {h : ∀ state, (step state).Advances 1} (hgoes : ∀ state c, (step state).Goes c fun _ => True)
    {s t : Scan σ} (hreach : (machine step h).Reaches s t) {more : Bytes}
    (hmore : (machine step h).run (t.before (more ++ t.cursor.rest)) = (machine step h).run t) :
    ∃ n, t.cursor = s.cursor.ahead n
      ∧ (machine step h).run (s.before (insertAt s.cursor.rest n more))
        = (machine step h).run s := by
  obtain ⟨n, -, hcursor, hreaches⟩ := reaches_before hgoes hreach
  refine ⟨n, hcursor, ?_⟩
  have hrest : t.cursor.rest = s.cursor.rest.drop n := by
    rw [hcursor]
    rfl
  rw [hrest] at hmore
  rw [insertAt, ← (hreaches _).run_eq, hmore, hreach.run_eq]

end Coverage
