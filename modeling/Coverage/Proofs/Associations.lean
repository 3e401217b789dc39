import Coverage.Notes
import Coverage.Proofs.SourceFiles

/-!
# Lines that blocks list

A block keeps its lines as a list of tokens, in which a zero announces the position of a source.
`Block.Lists` says which lines of which sources a list stands for, by name, and where it may go
on; attributing one more line appends one more entry (`Block.Lists.add`), whether or not its
source is put in front.
-/

namespace Coverage

/-- The tokens that attribute a line, behind tokens that name the source `emitted` last. -/
def lineTokens (emitted : Option Nat) (source line : Nat) : List Nat :=
  if emitted = some source then [line] else [0, source, line]

theorem associationsFrom_line {line : Nat} (hline : line ≠ 0) (source : Nat) (tail : List Nat) :
    associationsFrom (some source) (line :: tail)
      = (source, line) :: associationsFrom (some source) tail := by
  rw [associationsFrom.eq_def]
  simp [hline]

theorem associationsFrom_lineTokens (emitted : Option Nat) {source line : Nat} (hline : line ≠ 0)
    (tail : List Nat) :
    associationsFrom emitted (lineTokens emitted source line ++ tail)
      = (source, line) :: associationsFrom (some source) tail := by
  unfold lineTokens
  split
  · next heq =>
    rw [heq]
    exact associationsFrom_line hline source tail
  · exact associationsFrom_line hline source tail

/-- No list stands for a line zero: a zero announces a source. -/
theorem ne_zero_of_mem_associationsFrom {source : Option Nat} {tokens : List Nat}
    {place : Nat × Nat} (h : place ∈ associationsFrom source tokens) : place.2 ≠ 0 := by
  fun_induction associationsFrom source tokens with
  | case1 => cases h
  | case2 => cases h
  | case3 source next rest ih => exact ih h
  | case4 source token rest htoken ih =>
    rcases List.mem_append.mp h with hhead | htail
    · rw [Option.mem_toList, Option.map_eq_some_iff] at hhead
      obtain ⟨s, -, rfl⟩ := hhead
      exact htoken
    · exact ih htail

/-- `b.Lists r emitted named`: the block lists these lines of these sources, and a list that goes
on does so in the source `emitted`. -/
structure Block.Lists (b : Block) (r : Registry) (emitted : Option Nat)
    (named : List (String × Nat)) : Prop where
  located : List.Forall₂ r.Locates b.associations named
  continues : ∀ tail, associationsFrom none (b.lines ++ tail)
    = b.associations ++ associationsFrom emitted tail

/-- `func.Lists r named`: every block lists the lines that `named` gives for it. -/
def Func.Lists (func : Func) (r : Registry) (named : Nat → List (String × Nat)) : Prop :=
  ∀ (i : Nat) (b : Block), func.graph.blocks[i]? = some b → ∃ emitted, b.Lists r emitted (named i)

variable {b : Block} {r r' : Registry} {emitted : Option Nat} {named : List (String × Nat)}

theorem Block.Lists.mono (h : b.Lists r emitted named) (hr : r.Extends r') :
    b.Lists r' emitted named where
  located := h.located.imp fun _ _ hplace => hplace.mono hr
  continues := h.continues

theorem Func.Lists.mono {func : Func} {named : Nat → List (String × Nat)}
    (h : func.Lists r named) (hr : r.Extends r') : func.Lists r' named := by
  intro i b hb
  obtain ⟨emitted, hlists⟩ := h i b hb
  exact ⟨emitted, hlists.mono hr⟩

theorem Block.Lists.of_lines (h : b.Lists r emitted named) {b' : Block} (hb : b'.lines = b.lines) :
    b'.Lists r emitted named := by
  have hassociations : b'.associations = b.associations := congrArg (associationsFrom none) hb
  exact ⟨hassociations ▸ h.located, fun tail => by rw [hb, hassociations, h.continues]⟩

theorem Block.lists_nil (hb : b.lines = []) (r : Registry) : b.Lists r none [] where
  located := by
    rw [Block.associations, hb]
    exact .nil
  continues tail := by
    rw [Block.associations, hb]
    rfl

/-- What a list stands for with one more line behind it, which is put in front of its source where
this is not known to be named last. -/
theorem Block.associationsFrom_add {e : Option Nat}
    (h : ∀ tail, associationsFrom none (b.lines ++ tail)
      = b.associations ++ associationsFrom e tail)
    (hemitted : emitted = none ∨ emitted = e) (source : Nat) {line : Nat} (hline : line ≠ 0)
    (tail : List Nat) :
    associationsFrom none (b.lines ++ lineTokens emitted source line ++ tail)
      = b.associations ++ [(source, line)] ++ associationsFrom (some source) tail := by
  have htokens : associationsFrom e (lineTokens emitted source line ++ tail)
      = (source, line) :: associationsFrom (some source) tail := by
    rcases hemitted with rfl | rfl
    · exact associationsFrom_line hline source tail
    · exact associationsFrom_lineTokens emitted hline tail
  rw [List.append_assoc, h, htokens, List.append_assoc, List.singleton_append]

/-- One more line of a source, which is put in front where it is not known to be named last. -/
theorem Block.Lists.add {e : Option Nat} (h : b.Lists r e named)
    (hemitted : emitted = none ∨ emitted = e) {source line : Nat} {name : String}
    (hline : line ≠ 0) (hlocates : r.Locates (source, line) (name, line)) :
    ({ b with lines := b.lines ++ lineTokens emitted source line } : Block).Lists r (some source)
      (named ++ [(name, line)]) := by
  have hadd := Block.associationsFrom_add h.continues hemitted source hline
  have hassociations :
      ({ b with lines := b.lines ++ lineTokens emitted source line } : Block).associations
        = b.associations ++ [(source, line)] := by
    simpa [Block.associations, associationsFrom] using hadd []
  refine ⟨?_, fun tail => ?_⟩
  · rw [hassociations]
    exact List.rel_append h.located (.cons hlocates .nil)
  · rw [hassociations]
    exact hadd tail

/-- By name, blocks list what they were given. -/
theorem Func.Lists.associations_eq {func : Func} {r : Registry}
    {named : Nat → List (String × Nat)} (h : func.Lists r named) {i : Nat} {block : Block}
    (hblock : func.graph.blocks[i]? = some block) :
    block.associations.map (fun place => (r.names[place.1]?, place.2))
      = (named i).map fun entry => (some entry.1, entry.2) := by
  obtain ⟨emitted, hlists⟩ := h i block hblock
  exact Registry.map_names_of_locates hlists.located

end Coverage
