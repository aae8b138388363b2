import Mathlib.Data.List.Basic

/-! Links between nodes, and the nodes that one meets when one follows them. -/
namespace LinkedPath

variable {ν : Type} {next next' : ν → Option ν} {head last : Option ν} {nodes : List ν}

/-- From `head` the links lead through `nodes`, one after the other, to `last`. -/
def Path (next : ν → Option ν) : Option ν → List ν → Option ν → Prop
  | head, [], last => head = last
  | head, node :: rest, last => head = some node ∧ Path next (next node) rest last

/-- Only the links of the nodes on the way matter. -/
theorem Path.congr (path : Path next head nodes last)
    (same : ∀ node ∈ nodes, next' node = next node) : Path next' head nodes last := by
  induction nodes generalizing head with
  | nil => exact path
  | cons node rest ih =>
    obtain ⟨here, others⟩ := List.forall_mem_cons.mp same
    refine ⟨path.1, ?_⟩
    rw [here]
    exact ih path.2 others

theorem path_append_iff (first second : List ν) :
    Path next head (first ++ second) last ↔
      ∃ between, Path next head first between ∧ Path next between second last := by
  induction first generalizing head with
  | nil => exact ⟨fun path => ⟨head, rfl, path⟩, fun ⟨_, same, path⟩ => same ▸ path⟩
  | cons node rest ih =>
    simp only [List.cons_append, Path, ih]
    constructor
    · rintro ⟨here, between, front, back⟩
      exact ⟨between, ⟨here, front⟩, back⟩
    · rintro ⟨between, ⟨here, front⟩, back⟩
      exact ⟨here, between, front, back⟩

end LinkedPath
