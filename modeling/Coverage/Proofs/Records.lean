import Coverage.Format
import Coverage.Proofs.Plans

/-!
# Headers and records

What both files of a unit have in common: numbers in a row, the frame of a record, and the header
that shows the byte order and the version.
-/

namespace Coverage

/-! ## Numbers in a row -/

namespace Writer

@[simp] theorem words_nil (order : ByteOrder) : words order [] = [] := rfl

@[simp] theorem words_cons (order : ByteOrder) (n : Int) (numbers : List Int) :
    words order (n :: numbers) = word order n ++ words order numbers := rfl

@[simp] theorem words_append (order : ByteOrder) (numbers more : List Int) :
    words order (numbers ++ more) = words order numbers ++ words order more := by
  simp [words]

@[simp] theorem length_words (order : ByteOrder) (numbers : List Int) :
    (words order numbers).length = numbers.length * wordSize := by
  induction numbers with
  | nil => simp
  | cons n numbers ih => simp [ih, Nat.succ_mul, Nat.add_comm]

theorem record_eq (order : ByteOrder) (tag : Nat) (payload : Bytes) :
    record order tag payload
      = word order tag ++ (word order (payload.length / wordSize : Nat) ++ payload) := by
  rw [record, List.append_assoc]

end Writer

namespace Cursor

variable {order : ByteOrder} {offset : Nat}

theorem takes_lengthWord (n : Nat) :
    word.Takes order offset (Writer.word order n) (n % wordRange) := by
  have htakes : word.Takes order offset _ _ := takes_word (n : Int)
  have hmod : ((n : Int) % wordRange).toNat = n % wordRange := by omega
  rwa [hmod] at htakes

theorem takes_skipZeros (count : Nat) :
    (skipWords count).Takes order offset (Writer.words order (List.replicate count 0)) () :=
  takes_skipWords (by simp)

end Cursor

/-! ## Headers -/

section Header

open Writer

variable {order : ByteOrder} {offset : Nat}

/-- The magic word shows the byte order. -/
theorem openFile_header (kind : FileKind) (plan : UnitPlan) (rest : Bytes) :
    openFile kind (plan.header kind ++ rest) = .ok
      { rest := words plan.order [plan.version, plan.stamp] ++ rest
        offset := wordSize
        order := plan.order } := by
  have hmagic : Cursor.word.Takes .big 0 _ _ :=
    Cursor.takes_word_of_length (Writer.length_word plan.order kind.magic)
  have hread := hmagic (words plan.order [plan.version, plan.stamp] ++ rest)
  have hfile : plan.header kind ++ rest = word plan.order kind.magic
      ++ (words plan.order [plan.version, plan.stamp] ++ rest) := by
    rw [UnitPlan.header, words_cons, List.append_assoc]
  rw [openFile, hfile, Cursor.ofBytes, hread]
  cases plan.order with
  | big =>
    have hmagic : ByteOrder.big.toNat (word .big kind.magic) = kind.magic := by
      cases kind <;> decide
    simp [hmagic]
  | little =>
    have hmagic : ByteOrder.big.toNat (word .little kind.magic) ≠ kind.magic := by
      cases kind <;> decide
    have hswap : byteSwap (ByteOrder.big.toNat (word .little kind.magic)) = kind.magic := by
      cases kind <;> decide
    simp [hmagic, hswap]

theorem readVersion_takes {plan : UnitPlan} (h : InWord plan.version) :
    readVersion.Takes plan.order offset (words plan.order [plan.version, plan.stamp])
      plan.version.toNat := by
  rw [words_cons, words_cons, words_nil, List.append_nil]
  exact (Cursor.takes_word_of_lt h.1 h.2).bind
    ((Cursor.takes_word _).map fun _ => plan.version.toNat)

/-- The version of a file and the place behind its header, if all of the header is there. -/
def records? (kind : FileKind) (bytes : Bytes) : Option (Nat × Cursor) :=
  match openFile kind bytes with
  | .error _ => none
  | .ok cursor =>
    match readVersion.run cursor with
    | .error _ _ => none
    | .ok version cursor => some (version, cursor)

theorem records?_eq_some {kind : FileKind} {bytes : Bytes} {cursor cursor' : Cursor} {version : Nat}
    (hopen : openFile kind bytes = .ok cursor)
    (hversion : readVersion.run cursor = .ok version cursor') :
    records? kind bytes = some (version, cursor') := by
  simp only [records?, hopen, hversion]

/-- Where the header of a file is all there, it is opened and its version read. -/
theorem exists_of_records? {kind : FileKind} {bytes : Bytes} {cursor' : Cursor} {version : Nat}
    (h : records? kind bytes = some (version, cursor')) :
    ∃ cursor, openFile kind bytes = .ok cursor ∧ readVersion.run cursor = .ok version cursor' := by
  unfold records? at h
  split at h
  · cases h
  · next cursor hopen =>
    split at h
    · cases h
    · next version cursor' hversion =>
      cases h
      exact ⟨cursor, hopen, hversion⟩

/-- The records of a written file. -/
theorem records?_header (kind : FileKind) {plan : UnitPlan} (h : InWord plan.version)
    (rest : Bytes) :
    records? kind (plan.header kind ++ rest) = some (plan.version.toNat,
      { rest
        offset := wordSize + (words plan.order [plan.version, plan.stamp]).length
        order := plan.order }) :=
  records?_eq_some (openFile_header kind plan rest) (readVersion_takes h rest)

end Header

end Coverage
