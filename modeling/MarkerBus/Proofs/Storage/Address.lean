import Mathlib.Tactic.TFAE
import MarkerBus.Proofs.Storage.Chronicle

namespace MarkerBus.Storage.Memory

variable {memory after : Memory} {creation : Creation} {first second : String}
  {directory other name otherName : String}

theorem place_join_eq_iff (nonempty : directory ≠ "") (otherNonempty : other ≠ "")
    (free : '/' ∉ name.toList) (otherFree : '/' ∉ otherName.toList) :
    place (Path.join directory name) = place (Path.join other otherName) ↔
      Path.trim directory = Path.trim other ∧ name = otherName := by
  rw [place_join nonempty free, place_join otherNonempty otherFree, Prod.mk.injEq]

/-- A removal looks at nothing of a path but the entry that it addresses. -/
theorem remove_congr (memory : Memory) (same : place first = place second) :
    memory.remove first = memory.remove second := by
  unfold remove
  rw [same]

theorem removed_of_created (created : memory.create first = (.ok creation, after)) :
    (after.remove first).1 = .removed := by
  have held : (place first).2 ∈ after.namesAt (place first).1 :=
    (mem_namesAt_create created).mpr (.inl Prod.mk.eta)
  rw [remove_fst, if_pos held]

/-- The only entry after the first creation is the one that has been created. -/
theorem place_eq_of_created (created : ({} : Memory).create first = (.ok creation, after))
    (held : (place second).2 ∈ after.namesAt (place second).1) : place second = place first := by
  have same := ((mem_namesAt_create created).mp held).resolve_right nofun
  rwa [Prod.mk.eta] at same

/-- Splitting takes off the name that has been joined, and leaves the directory up to
its trailing slashes.  Two joined paths address the same entry just if their directories
agree when trimmed, and their names agree: then a removal with the one is a removal with
the other in every memory, and what is created with the one is found by the other, and
listed under its directory. -/
theorem join_addresses_entry (nonempty : directory ≠ "") (otherNonempty : other ≠ "")
    (plain : Path.Plain name) (otherPlain : Path.Plain otherName) :
    (∃ front, Path.split (Path.join directory name) = (front, name) ∧
      Path.trim front = Path.trim directory) ∧
    [place (Path.join directory name) = place (Path.join other otherName),
      ∀ requests, (following requests).remove (Path.join directory name) =
        (following requests).remove (Path.join other otherName),
      ∀ requests creation after,
        (following requests).create (Path.join directory name) = (.ok creation, after) →
          (after.remove (Path.join other otherName)).1 = .removed,
      ∀ requests creation after,
        (following requests).create (Path.join directory name) = (.ok creation, after) →
          otherName ∈ after.names other,
      Path.trim directory = Path.trim other ∧ name = otherName].TFAE ∧
    ∀ path, Path.trim (Path.trim path) = Path.trim path := by
  have otherPlace := place_join otherNonempty otherPlain.2
  have vacant : ¬ ({} : Memory).Known (Path.join directory name) := not_known_empty
  obtain ⟨creation, made, created⟩ := create_join nonempty plain vacant
  refine ⟨Path.split_join nonempty plain.2, ?_, Path.trim_trim⟩
  tfae_have 1 ↔ 5 := place_join_eq_iff nonempty otherNonempty plain.2 otherPlain.2
  tfae_have 1 → 2 := fun same requests => remove_congr _ same
  tfae_have 2 → 3 := by
    intro agree requests creation after created
    have reached : following (.create (Path.join directory name) :: requests) = after := by
      rw [following, serve_create, created]
    rw [← reached, ← agree, reached]
    exact removed_of_created created
  tfae_have 3 → 1 := by
    intro removed
    have gone := removed [] creation made created
    rw [remove_fst] at gone
    split at gone
    · rename_i held
      exact (place_eq_of_created created held).symm
    · cases gone
  tfae_have 1 → 4 := by
    intro same requests creation after created
    refine (mem_namesAt_create created).mpr (.inl ?_)
    rw [same, otherPlace]
  tfae_have 4 → 1 := by
    intro listed
    have held := listed [] creation made created
    refine (place_eq_of_created created ?_).symm
    rwa [otherPlace]
  tfae_finish

/-- Also the root may be spelt with any number of slashes. -/
theorem slashes_address_root :
    ("///" ≠ "" ∧ "/" ≠ "" ∧ Path.Plain "a") ∧
      ∀ requests creation after,
        (following requests).create (Path.join "///" "a") = (.ok creation, after) →
          "a" ∈ after.names "/" := by
  have nonempty : "///" ≠ "" := by decide
  have otherNonempty : "/" ≠ "" := by decide
  have plain : Path.Plain "a" := ⟨by decide, by decide⟩
  have same : Path.trim "///" = Path.trim "/" ∧ "a" = "a" := ⟨by decide, rfl⟩
  have listed := (join_addresses_entry nonempty otherNonempty plain plain).2.1.out 4 3
  exact ⟨⟨nonempty, otherNonempty, plain⟩, listed.mp same⟩

end MarkerBus.Storage.Memory
