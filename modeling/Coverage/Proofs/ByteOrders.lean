import Coverage.Proofs.Parallels

/-!
# Either byte order

A data file may be written in either byte order, and means the same.  Turning every word of a file
around (`swapWords`) makes a file of the opposite order of it, whatever bytes it is made of.  A
decoder that stands at the start of a word reads the same numbers there in the opposite order
(`Read.Mirrors`), and all that it does leads it to the start of another word: records are counted in
words, and those that are left early or late are left at the end of a word.  So the decoders of both
files go on together (`Counters.mirrored_parallel`), and the files mean the same
(`Counters.decode_swapWords`).
-/

namespace Coverage

/-! ## Turning words around -/

/-- The other byte order. -/
def ByteOrder.opposite : ByteOrder → ByteOrder
  | .big => .little
  | .little => .big

theorem ByteOrder.opposite_inj {order order' : ByteOrder} :
    order.opposite = order'.opposite ↔ order = order' := by
  cases order <;> cases order' <;> decide

/-- The bytes of every word in the opposite order; a part of a word at the end is left alone. -/
def swapWords : Bytes → Bytes
  | a :: b :: c :: d :: rest => d :: c :: b :: a :: swapWords rest
  | rest => rest

@[simp] theorem length_swapWords (bytes : Bytes) : (swapWords bytes).length = bytes.length := by
  fun_induction swapWords bytes with
  | case1 a b c d rest ih => simp [ih]
  | case2 => rfl

/-- Words that are turned around twice are as they were. -/
theorem swapWords_swapWords (bytes : Bytes) : swapWords (swapWords bytes) = bytes := by
  fun_induction swapWords bytes with
  | case1 a b c d rest ih => rw [swapWords, ih]
  | case2 rest hrest => rw [swapWords.eq_2 rest hrest]

/-- Bytes that are not a word are left alone. -/
theorem swapWords_of_lt {bytes : Bytes} (h : bytes.length < wordSize) :
    swapWords bytes = bytes := by
  rw [swapWords.eq_2]
  rintro a b c d rest rfl
  simp only [List.length_cons, wordSize] at h
  omega

/-- Whole words are turned around apart from what follows. -/
theorem swapWords_append {bytes : Bytes} (h : bytes.length % wordSize = 0) (rest : Bytes) :
    swapWords (bytes ++ rest) = swapWords bytes ++ swapWords rest := by
  fun_induction swapWords bytes with
  | case1 a b c d bytes ih =>
    have hlength : bytes.length % wordSize = 0 := by
      simp only [List.length_cons, wordSize] at h ⊢
      omega
    simp only [List.cons_append, swapWords, ih hlength]
  | case2 bytes hshort =>
    -- less than a word, and no part of one
    have hnil : bytes = [] := by
      rcases bytes with _ | ⟨a, _ | ⟨b, _ | ⟨c, _ | ⟨d, bytes⟩⟩⟩⟩
      · rfl
      · simp [wordSize] at h
      · simp [wordSize] at h
      · simp [wordSize] at h
      · exact absurd rfl (hshort a b c d bytes)
    rw [hnil]
    rfl

section Words

variable {bytes : Bytes}

theorem swapWords_take {n : Nat} (h : n % wordSize = 0) (hle : n ≤ bytes.length) :
    (swapWords bytes).take n = swapWords (bytes.take n) := by
  have hlength : (bytes.take n).length % wordSize = 0 := by
    rw [List.length_take, Nat.min_eq_left hle, h]
  have hsplit := swapWords_append hlength (bytes.drop n)
  rw [List.take_append_drop] at hsplit
  rw [hsplit]
  refine List.take_left' ?_
  rw [length_swapWords, List.length_take, Nat.min_eq_left hle]

theorem swapWords_drop {n : Nat} (h : n % wordSize = 0) (hle : n ≤ bytes.length) :
    (swapWords bytes).drop n = swapWords (bytes.drop n) := by
  have hlength : (bytes.take n).length % wordSize = 0 := by
    rw [List.length_take, Nat.min_eq_left hle, h]
  have hsplit := swapWords_append hlength (bytes.drop n)
  rw [List.take_append_drop] at hsplit
  rw [hsplit]
  refine List.drop_left' ?_
  rw [length_swapWords, List.length_take, Nat.min_eq_left hle]

theorem exists_of_word (h : bytes.length = wordSize) : ∃ a b c d, bytes = [a, b, c, d] := by
  match bytes, h with
  | [a, b, c, d], _ => exact ⟨a, b, c, d, rfl⟩

/-- A word stands for the same number the other way round. -/
theorem toNat_opposite (order : ByteOrder) (h : bytes.length = wordSize) :
    order.opposite.toNat (swapWords bytes) = order.toNat bytes := by
  obtain ⟨a, b, c, d, rfl⟩ := exists_of_word h
  cases order with
  | big => rfl
  | little => rfl

theorem word_toNat (h : bytes.length = wordSize) :
    ByteOrder.big.word (ByteOrder.big.toNat bytes) = bytes := by
  obtain ⟨a, b, c, d, rfl⟩ := exists_of_word h
  have hbyte : ∀ (n : Nat) (e : UInt8), n % 256 = e.toNat → UInt8.ofNat n = e := by
    intro n e hn
    apply UInt8.toNat_inj.mp
    rw [UInt8.toNat_ofNat', ← hn]
  have ha := a.toNat_lt
  have hb := b.toNat_lt
  have hc := c.toNat_lt
  have hd := d.toNat_lt
  simp only [ByteOrder.word, ByteOrder.toNat, ByteOrder.littleWord, ByteOrder.littleToNat,
    List.reverse_cons, List.reverse_nil, List.nil_append, List.cons_append]
  rw [hbyte _ a (by omega), hbyte _ b (by omega), hbyte _ c (by omega), hbyte _ d (by omega)]

/-- The number of a word that is turned around. -/
theorem toNat_swapWords (h : bytes.length = wordSize) :
    ByteOrder.big.toNat (swapWords bytes) = byteSwap (ByteOrder.big.toNat bytes) := by
  rw [byteSwap, word_toNat h]
  exact toNat_opposite .little h

theorem byteSwap_byteSwap (h : bytes.length = wordSize) :
    byteSwap (byteSwap (ByteOrder.big.toNat bytes)) = ByteOrder.big.toNat bytes := by
  rw [← toNat_swapWords h, ← toNat_swapWords (by rw [length_swapWords, h]), swapWords_swapWords]

end Words

/-! ## Reading -/

/-- The same place in the file that is turned around. -/
def Cursor.mirror (c : Cursor) : Cursor where
  rest := swapWords c.rest
  offset := c.offset
  order := c.order.opposite

/-- Whether a place is the start of a word. -/
def Aligned (offset : Nat) : Prop :=
  offset % wordSize = 0

theorem aligned_wordSize : Aligned wordSize :=
  rfl

theorem Cursor.mirror_ahead {c : Cursor} {n : Nat} (h : Aligned n) (hle : n ≤ c.rest.length) :
    (c.ahead n).mirror = c.mirror.ahead n := by
  rw [mirror, mirror, ahead, ahead, Cursor.mk.injEq]
  exact ⟨(swapWords_drop h hle).symm, rfl, rfl⟩

/-- `action.Mirrors P c`: in both files, the action reads the same from the place on and comes to
the start of the same word, or fails. -/
inductive Read.Mirrors {α : Type} (action : Read α) (P : α → Prop) (c : Cursor) : Prop
  | ok (a : α) (c' : Cursor) : action.run c = .ok a c' → action.run c.mirror = .ok a c'.mirror →
      P a → Aligned c'.offset → Mirrors action P c
  | error (e e' : EndOfInput) (c' c'' : Cursor) : action.run c = .error e c' →
      action.run c.mirror = .error e' c'' → Mirrors action P c

/-- An action that takes whole words and makes the same of them the other way round. -/
theorem Read.Spans.mirrors {α : Type} {action : Read α} {size : Nat → Nat}
    {value : ByteOrder → Nat → Bytes → α} (h : action.Spans size value) {P : α → Prop} {c : Cursor}
    (hc : Aligned c.offset) (hsize : Aligned (size c.offset))
    (hvalue : ∀ bytes : Bytes, bytes.length = size c.offset →
      value c.order.opposite c.offset (swapWords bytes) = value c.order c.offset bytes
        ∧ P (value c.order c.offset bytes)) : action.Mirrors P c := by
  by_cases hle : size c.offset ≤ c.rest.length
  · have hlength : (c.rest.take (size c.offset)).length = size c.offset := by
      rw [List.length_take, Nat.min_eq_left hle]
    obtain ⟨hsame, hP⟩ := hvalue _ hlength
    have hrun := h.takes c.order c.offset _ hlength (c.rest.drop (size c.offset))
    have hlength' : ((swapWords c.rest).take (size c.offset)).length = size c.offset := by
      rw [List.length_take, length_swapWords, Nat.min_eq_left hle]
    have hrun' := h.takes c.order.opposite c.offset _ hlength'
      ((swapWords c.rest).drop (size c.offset))
    rw [List.take_append_drop, hlength] at hrun
    rw [List.take_append_drop, hlength', swapWords_take hsize hle, hsame] at hrun'
    refine .ok _ (c.ahead (size c.offset)) hrun ?_ hP ?_
    · rw [Cursor.mirror_ahead hsize hle]
      exact hrun'
    · rw [Aligned, Cursor.ahead_offset, Nat.add_mod, hc, hsize]
      rfl
  · have hlt := Nat.lt_of_not_le hle
    have hlt' : c.mirror.rest.length < size c.mirror.offset := by
      rw [Cursor.mirror, length_swapWords]
      exact hlt
    obtain ⟨e, c', he⟩ := h.run_of_lt hlt
    obtain ⟨e', c'', he'⟩ := h.run_of_lt hlt'
    exact .error e e' c' c'' he he'

theorem Read.mirrors_pure {α : Type} {P : α → Prop} {a : α} (ha : P a) {c : Cursor}
    (hc : Aligned c.offset) : Read.Mirrors (pure a) P c :=
  .ok a c rfl rfl ha hc

theorem Read.Mirrors.bind {α β : Type} {action : Read α} {next : α → Read β} {P : α → Prop}
    {Q : β → Prop} {c : Cursor} (h : action.Mirrors P c)
    (hnext : ∀ a c', P a → Aligned c'.offset → (next a).Mirrors Q c') :
    Read.Mirrors (action >>= next) Q c := by
  cases h with
  | ok a c' hrun hrun' ha hc' =>
    simp only [EStateM.run] at hrun hrun'
    cases hnext a c' ha hc' with
    | ok b d hrest hrest' hb hd =>
      simp only [EStateM.run] at hrest hrest'
      refine .ok b d ?_ ?_ hb hd
      · simp only [EStateM.run, Bind.bind, EStateM.bind, hrun, hrest]
      · simp only [EStateM.run, Bind.bind, EStateM.bind, hrun', hrest']
    | error e e' d d' hrest hrest' =>
      simp only [EStateM.run] at hrest hrest'
      refine .error e e' d d' ?_ ?_
      · simp only [EStateM.run, Bind.bind, EStateM.bind, hrun, hrest]
      · simp only [EStateM.run, Bind.bind, EStateM.bind, hrun', hrest']
  | error e e' c' c'' hrun hrun' =>
    simp only [EStateM.run] at hrun hrun'
    refine .error e e' c' c'' ?_ ?_
    · simp only [EStateM.run, Bind.bind, EStateM.bind, hrun]
    · simp only [EStateM.run, Bind.bind, EStateM.bind, hrun']

section Reads

variable {c : Cursor}

theorem word_mirrors (hc : Aligned c.offset) : Cursor.word.Mirrors (fun _ => True) c := by
  refine Cursor.word_spans.mirrors hc rfl fun bytes hlength => ⟨?_, trivial⟩
  exact toNat_opposite c.order hlength

theorem counter_mirrors (hc : Aligned c.offset) : Cursor.counter.Mirrors (fun _ => True) c := by
  refine Cursor.counter_spans.mirrors hc rfl fun bytes hlength => ⟨?_, trivial⟩
  have hle : wordSize ≤ bytes.length := by
    rw [hlength]
    decide
  have hlow : (bytes.take wordSize).length = wordSize := by
    rw [List.length_take, Nat.min_eq_left hle]
  have hhigh : (bytes.drop wordSize).length = wordSize := by
    rw [List.length_drop, hlength]
    rfl
  rw [swapWords_take rfl hle, swapWords_drop rfl hle, toNat_opposite c.order hlow,
    toNat_opposite c.order hhigh]

theorem skipWords_mirrors (hc : Aligned c.offset) (count : Int) :
    (Cursor.skipWords count).Mirrors (fun _ => True) c := by
  refine (Cursor.skipWords_spans count).mirrors hc ?_ fun _ _ => ⟨rfl, trivial⟩
  exact Nat.mul_mod_left _ _

/-- Behind the end of a record both decoders stay, and before it both skip whole words. -/
theorem skipTo_mirrors (hc : Aligned c.offset) {fin : Nat} (hfin : Aligned fin) :
    (Cursor.skipTo fin).Mirrors (fun _ => True) c := by
  refine (Cursor.skipTo_spans fin).mirrors hc ?_ fun _ _ => ⟨rfl, trivial⟩
  unfold Aligned wordSize at *
  omega

/-- A record ends at the start of a word. -/
theorem readFrame_mirrors (hc : Aligned c.offset) :
    Counters.readFrame.Mirrors (fun frame => Aligned frame.2) c := by
  refine Counters.readFrame_spans.mirrors hc rfl fun bytes hlength => ⟨?_, ?_⟩
  · simp only [toNat_opposite c.order hlength]
  · unfold Aligned wordSize at *
    dsimp only
    omega

theorem readVersion_mirrors (hc : Aligned c.offset) :
    readVersion.Mirrors (fun _ => True) c :=
  (word_mirrors hc).bind fun _ _ _ hc => (word_mirrors hc).bind fun _ _ _ hc =>
    Read.mirrors_pure trivial hc

end Reads

/-! ## Headers -/

/-- A magic shows the opposite order when it is turned around.  What is no magic is none the other
way round. -/
theorem openFile_swapWords (kind : FileKind) (bytes : Bytes) :
    (∃ c, openFile kind bytes = .ok c ∧ openFile kind (swapWords bytes) = .ok c.mirror
        ∧ Aligned c.offset)
      ∨ (∃ found, openFile kind bytes = .error (.wrongMagic kind found)
        ∧ openFile kind (swapWords bytes) = .error (.wrongMagic kind (byteSwap found)))
      ∨ (openFile kind bytes = .error (.noMagic kind)
        ∧ openFile kind (swapWords bytes) = .error (.noMagic kind)) := by
  by_cases hle : wordSize ≤ bytes.length
  · have hlength : (bytes.take wordSize).length = wordSize := by
      rw [List.length_take, Nat.min_eq_left hle]
    have hopen := openFile_eq kind hle
    have hle' : wordSize ≤ (swapWords bytes).length := by rwa [length_swapWords]
    have hopen' := openFile_eq kind hle'
    rw [swapWords_take rfl hle, swapWords_drop rfl hle, toNat_swapWords hlength,
      byteSwap_byteSwap hlength] at hopen'
    have hmagic : byteSwap kind.magic ≠ kind.magic := by
      cases kind <;> decide
    by_cases hbig : ByteOrder.big.toNat (bytes.take wordSize) = kind.magic
    · rw [if_pos hbig] at hopen
      rw [hbig, if_neg hmagic, if_pos rfl] at hopen'
      exact .inl ⟨_, hopen, hopen', aligned_wordSize⟩
    · by_cases hlittle : byteSwap (ByteOrder.big.toNat (bytes.take wordSize)) = kind.magic
      · rw [if_neg hbig, if_pos hlittle] at hopen
        rw [if_pos hlittle] at hopen'
        exact .inl ⟨_, hopen, hopen', aligned_wordSize⟩
      · rw [if_neg hbig, if_neg hlittle] at hopen
        rw [if_neg hlittle, if_neg hbig] at hopen'
        exact .inr (.inl ⟨_, hopen, hopen'⟩)
  · refine .inr (.inr ⟨?_, ?_⟩)
    · exact openFile_of_lt kind (Nat.lt_of_not_le hle)
    · rw [swapWords_of_lt (Nat.lt_of_not_le hle)]
      exact openFile_of_lt kind (Nat.lt_of_not_le hle)

/-! ## Decoders -/

/-- The start of a word, and the same place in the file that is turned around. -/
def Mirrored (c c' : Cursor) : Prop :=
  Aligned c.offset ∧ c' = c.mirror

/-- An action that reads the same from the start of a word on, in either file. -/
theorem Read.parallel_of_mirrors {α : Type} {action : Read α} {P : α → Prop} {R : α → α → Prop}
    (h : ∀ {c}, Aligned c.offset → action.Mirrors P c) (hR : ∀ a, P a → R a a) :
    action.Parallel Mirrored R action := by
  rintro c _ ⟨hc, rfl⟩
  cases h hc with
  | ok a c' hrun hrun' ha hc' =>
    rw [hrun, hrun']
    exact .ok (hR a ha) ⟨hc', rfl⟩
  | error e e' c' c'' hrun hrun' =>
    rw [hrun, hrun']
    exact .error

namespace Counters

/-- In both files records end at the start of the same word. -/
theorem mirrored_parallel : Parallel Mirrored fun fin fin' => Aligned fin ∧ fin' = fin where
  word := Read.parallel_of_mirrors word_mirrors fun _ _ => rfl
  counter := Read.parallel_of_mirrors counter_mirrors fun _ _ => rfl
  skipWords count := Read.parallel_of_mirrors (fun hc => skipWords_mirrors hc count)
    fun _ _ => trivial
  skipTo := by
    rintro fin _ ⟨hfin, rfl⟩
    exact Read.parallel_of_mirrors (fun hc => skipTo_mirrors hc hfin) fun _ _ => trivial
  readFrame := Read.parallel_of_mirrors readFrame_mirrors fun _ hframe => ⟨rfl, hframe, rfl⟩

theorem decodeRecords_mirror (functions : List Func) (version : Nat) {c : Cursor}
    (hc : Aligned c.offset) :
    decodeRecords functions version c.mirror = decodeRecords functions version c :=
  Scanner.run_parallel (fun _ _ hst => step_parallel mirrored_parallel hst)
    ⟨⟨hc, rfl⟩, .between _ rfl⟩

/-- Data files mean the same in either byte order, whatever bytes they are made of.  Turning around
every word of a file leads to the same functions, down to the counts and degrees of their graphs,
and to the same result, but that a magic that is not recognized is told as it stands in the file.
The one file is recognized as big-endian where the other is as little-endian, and all else that is
logged is the same. -/
theorem decode_swapWords (functions : List Func) (bytes : Bytes) :
    (decode functions (swapWords bytes)).state = (decode functions bytes).state
      ∧ ((decode functions (swapWords bytes)).result = (decode functions bytes).result
        ∨ ∃ found, (decode functions bytes).result = .error (.wrongMagic .data found)
          ∧ (decode functions (swapWords bytes)).result
            = .error (.wrongMagic .data (byteSwap found)))
      ∧ (∀ order, (decode functions bytes).log.head? = some (.byteOrder .data order)
          ↔ (decode functions (swapWords bytes)).log.head?
            = some (.byteOrder .data order.opposite))
      ∧ (decode functions (swapWords bytes)).log.tail = (decode functions bytes).log.tail := by
  rcases openFile_swapWords .data bytes with
    ⟨c, hopen, hopen', hc⟩ | ⟨found, hopen, hopen'⟩ | ⟨hopen, hopen'⟩
  · cases readVersion_mirrors hc with
    | ok version c' hversion hversion' _ hc' =>
      simp only [decode, hopen, hopen', hversion, hversion', decodeRecords_mirror _ _ hc']
      refine ⟨trivial, .inl trivial, fun order => ?_, rfl⟩
      simp [Cursor.mirror, ByteOrder.opposite_inj]
    | error e e' c' c'' hversion hversion' =>
      simp only [decode, hopen, hopen', hversion, hversion']
      refine ⟨trivial, .inl trivial, fun order => ?_, rfl⟩
      simp [Cursor.mirror, ByteOrder.opposite_inj]
  · simp only [decode, hopen, hopen']
    exact ⟨rfl, .inr ⟨found, rfl, rfl⟩, fun order => by simp [Outcome.fail], rfl⟩
  · simp only [decode, hopen, hopen']
    exact ⟨trivial, .inl trivial, fun order => by simp [Outcome.fail], trivial⟩

end Counters

end Coverage
