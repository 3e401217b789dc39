import Coverage.Proofs.Truncation
import Mathlib.Algebra.Ring.Int.Defs

/-!
# Items in a row

An item is what one call of a writer stores, and what the matching call of a reader gives back: a
word, a counter or a text.  Items are written in any sequence.  The same sequence of reads gives
them back as far as their places hold them, and ends where the writing ended.  In a buffer that is
cut off it gives back what stands before the cut, and then meets the end of the buffer.

* `Item.read_takes` — an item is read as it was written, whatever stands behind it;
* `Read.Takes.fails_of_prefix` — an item of which some bytes are missing is not read;
* `read_of_written` — the same of items in a row.
-/

namespace Coverage

/-! ## Missing bytes -/

/-- What takes some bytes fails where only the first of them are left. -/
theorem Read.Takes.fails_of_prefix {α : Type} {action : Read α} {order : ByteOrder} {offset : Nat}
    {bytes part : Bytes} {a : α} (htakes : action.Takes order offset bytes a)
    (hstable : action.Stable) (hpart : part <+: bytes) (hproper : part ≠ bytes) :
    ∃ e c, action.run { rest := part, offset, order } = .error e c := by
  obtain ⟨more, rfl⟩ := hpart
  cases hrun : action.run { rest := part, offset, order } with
  | error e c => exact ⟨e, c, rfl⟩
  | ok b c =>
    -- otherwise the missing bytes would be left of the whole, of which nothing is left
    exfalso
    have hleft := hstable _ _ _ more hrun
    have hnothing := htakes []
    rw [List.append_nil] at hnothing
    have hcursor := (EStateM.Result.ok.inj (hleft.symm.trans hnothing)).2
    have hmore : c.rest ++ more = [] := congrArg Cursor.rest hcursor
    simp [(List.append_eq_nil_iff.mp hmore).2] at hproper

/-! ## Items -/

/-- What one call of a writer stores. -/
inductive Item where
  | word (n : Int)
  | counter (n : Int)
  | string (text : String)
deriving DecidableEq, Repr

namespace Item

/-- What one call of a reader gives back. -/
inductive Value where
  | number (n : Nat)
  | text (text : String)
deriving DecidableEq, Repr

/-- What is left of an item that is stored: a number as far as its place holds it, or a text. -/
def value : Item → Value
  | word n => .number (n % 2 ^ 32).toNat
  | counter n => .number (n % 2 ^ 64).toNat
  | string text => .text text

/-- Whether an item can be stored, which all numbers can. -/
def Fits : Item → Prop
  | word _ => True
  | counter _ => True
  | string text => Storable text

instance : DecidablePred Fits
  | word _ => inferInstanceAs (Decidable True)
  | counter _ => inferInstanceAs (Decidable True)
  | string text => inferInstanceAs (Decidable (Storable text))

/-- The call that writes an item. -/
def write (order : ByteOrder) : Item → Bytes
  | word n => Writer.word order n
  | counter n => Writer.counter order n
  | string text => Writer.string order text

/-- The call that reads an item. -/
def read : Item → Read Value
  | word _ => do
    let n ← Cursor.word
    return .number n
  | counter _ => do
    let n ← Cursor.counter
    return .number n
  | string _ => do
    let text ← Cursor.string
    return .text text

/-- The calls that write items, one after another. -/
def writeAll (order : ByteOrder) (items : List Item) : Bytes :=
  items.flatMap (write order)

/-- The calls that read items, one after another. -/
def readEach : List Item → Read (List Value)
  | [] => return []
  | item :: items => do
    let value ← item.read
    let values ← readEach items
    return value :: values

/-- The calls that read items in a byte order. -/
def readAll (order : ByteOrder) (items : List Item) : Read (List Value) := do
  Cursor.setOrder order
  readEach items

variable {order : ByteOrder} {offset : Nat} {item : Item} {items : List Item} {part : Bytes}

@[simp] theorem writeAll_nil (order : ByteOrder) : writeAll order [] = [] := rfl

@[simp] theorem writeAll_cons (order : ByteOrder) (item : Item) (items : List Item) :
    writeAll order (item :: items) = item.write order ++ writeAll order items := rfl

/-! ## One item -/

/-- A text is filled up to whole words. -/
theorem dvd_length_string (order : ByteOrder) (text : String) :
    wordSize ∣ (Writer.string order text).length := by
  unfold Writer.string
  split
  · simp
  · simp only [List.length_append, Writer.length_word, List.length_replicate, wordSize]
    omega

/-- An item is written in whole words. -/
theorem dvd_length_write (order : ByteOrder) (item : Item) :
    wordSize ∣ (item.write order).length := by
  cases item with
  | word n => simp [write]
  | counter n =>
    rw [write, Cursor.length_counter]
    exact Nat.dvd_mul_left wordSize 2
  | string text => exact dvd_length_string order text

/-- An item is read as it was written, whatever stands behind it. -/
theorem read_takes (h : item.Fits) : item.read.Takes order offset (item.write order) item.value := by
  cases item with
  | word n => exact (Cursor.takes_word n).map Value.number
  | counter n => exact (Cursor.takes_counter n).map Value.number
  | string text => exact (Cursor.takes_string h).map Value.text

/-- How a buffer goes on behind an item does not matter. -/
theorem read_stable (item : Item) : item.read.Stable := by
  cases item with
  | word n => exact (Cursor.word_spans.placeless.bind fun _ => Read.placeless_pure _).stable
  | counter n => exact (Cursor.counter_spans.placeless.bind fun _ => Read.placeless_pure _).stable
  | string text => exact (Cursor.string_placeless.bind fun _ => Read.placeless_pure _).stable

/-! ## Items in a row -/

/-- Items are written in whole words. -/
theorem dvd_length_writeAll (order : ByteOrder) (items : List Item) :
    wordSize ∣ (writeAll order items).length := by
  induction items with
  | nil => simp
  | cons item items ih =>
    rw [writeAll_cons, List.length_append]
    exact Nat.dvd_add (dvd_length_write order item) ih

/-- Items are read as they were written, whatever stands behind them. -/
theorem readEach_takes (h : ∀ item ∈ items, item.Fits) :
    (readEach items).Takes order offset (writeAll order items) (items.map value) := by
  induction items generalizing offset with
  | nil => exact Read.takes_pure []
  | cons item items ih =>
    obtain ⟨hitem, hitems⟩ := List.forall_mem_cons.mp h
    exact (read_takes hitem).bind ((ih hitems).map fun values => item.value :: values)

/-- In the beginning of a buffer, the items that are all there are read, and the next one is not. -/
theorem readEach_prefix (h : ∀ item ∈ items, item.Fits) (hpart : part <+: writeAll order items)
    (hproper : part ≠ writeAll order items) :
    ∃ done item rest c e c', items = done ++ item :: rest
      ∧ (readEach done).run { rest := part, offset, order } = .ok (done.map value) c
      ∧ item.read.run c = .error e c' := by
  induction items generalizing offset part with
  | nil => exact absurd (List.prefix_nil.mp hpart) hproper
  | cons item items ih =>
    obtain ⟨hitem, hitems⟩ := List.forall_mem_cons.mp h
    rw [writeAll_cons] at hpart hproper
    have htakes : item.read.Takes order offset (item.write order) item.value := read_takes hitem
    by_cases hlength : (item.write order).length ≤ part.length
    · -- the item is there, and the cut is further on
      obtain ⟨left, rfl⟩ :=
        List.prefix_of_prefix_length_le (List.prefix_append _ _) hpart hlength
      have hleft : left <+: writeAll order items := (List.prefix_append_right_inj _).mp hpart
      have hlater : ∃ done last rest c e c', items = done ++ last :: rest
          ∧ (readEach done).run
              { rest := left, offset := offset + (item.write order).length, order }
            = .ok (done.map value) c
          ∧ last.read.run c = .error e c' :=
        ih hitems hleft fun heq => hproper (by rw [heq])
      obtain ⟨done, last, rest, c, e, c', rfl, hdone, hlast⟩ := hlater
      refine ⟨item :: done, last, rest, c, e, c', rfl, ?_, hlast⟩
      have hfirst := htakes left
      simp only [EStateM.run] at hfirst hdone
      simp only [readEach, EStateM.run, Bind.bind, EStateM.bind, hfirst, hdone]
      rfl
    · -- the cut is in the item
      have hitemPart : part <+: item.write order :=
        List.prefix_of_prefix_length_le hpart (List.prefix_append _ _) (by omega)
      have hne : part ≠ item.write order := by
        rintro rfl
        exact hlength (Nat.le_refl _)
      obtain ⟨e, c', herror⟩ := htakes.fails_of_prefix item.read_stable hitemPart hne
      exact ⟨[], item, items, _, e, c', rfl, rfl, herror⟩

/-- Reading undoes writing, in any sequence of words, counters and texts and in either byte order.
What is written is a multiple of four bytes long.  The matching reads give back numbers as far as
words and counters hold them and texts as they are, and end at the end of the buffer.  Of a buffer
that is cut off they give back the items that are all there, and the next read meets the end of the
buffer. -/
theorem read_of_written (order : ByteOrder) (items : List Item) :
    4 ∣ (writeAll order items).length
      ∧ ((∀ item ∈ items, item.Fits) →
        (readAll order items).run (.ofBytes (writeAll order items))
            = .ok (items.map value) { rest := [], offset := (writeAll order items).length, order }
          ∧ ∀ part, part <+: writeAll order items → part ≠ writeAll order items →
            ∃ done item rest c e c', items = done ++ item :: rest
              ∧ (readAll order done).run (.ofBytes part) = .ok (done.map value) c
              ∧ item.read.run c = .error e c') := by
  refine ⟨dvd_length_writeAll order items, fun hfits => ⟨?_, fun part hpart hproper => ?_⟩⟩
  · have hread : (readEach items).run { rest := writeAll order items ++ [], offset := 0, order }
        = .ok (items.map value) { rest := [], offset := 0 + (writeAll order items).length, order } :=
      readEach_takes hfits []
    rw [List.append_nil, Nat.zero_add] at hread
    exact hread
  · exact readEach_prefix hfits hpart hproper

/-- Numbers that their places do not hold, and texts of no, of three and of four bytes. -/
def sampleItems : List Item :=
  [.word (-1), .string "", .counter (2 ^ 64 + 5), .string "é1", .word 7, .string "main"]

theorem sampleItems_read :
    (∀ item ∈ sampleItems, item.Fits)
      ∧ (∃ c, (readAll .big sampleItems).run (.ofBytes (writeAll .big sampleItems))
        = .ok [.number 0xFFFFFFFF, .text "", .number 5, .text "é1", .number 7, .text "main"] c
          ∧ c.rest = [])
      ∧ ∃ done item rest c e c', sampleItems = done ++ item :: rest
        ∧ (readAll .little done).run (.ofBytes ((writeAll .little sampleItems).take 30))
          = .ok (done.map value) c
        ∧ item.read.run c = .error e c' := by
  have hfits : ∀ item ∈ sampleItems, item.Fits := by decide
  obtain ⟨-, hbig⟩ := read_of_written .big sampleItems
  obtain ⟨-, hlittle⟩ := read_of_written .little sampleItems
  refine ⟨hfits, ⟨_, (hbig hfits).1, rfl⟩, (hlittle hfits).2 _ (List.take_prefix _ _) ?_⟩
  exact fun h => absurd (congrArg List.length h) (by decide +kernel)

end Item

end Coverage
