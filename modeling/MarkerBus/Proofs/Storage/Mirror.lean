import MarkerBus.Proofs.FileTree.Holding
import MarkerBus.Proofs.Storage.Directory
import MarkerBus.Proofs.Storage.Memory

namespace MarkerBus.Storage

open FileTree

variable {memory : Memory} {tree : FileTree} {path name : String} {named : String → Prop}

namespace Directory

section

variable (ordinary : Ordinary path) (suits : Suits path name)

include ordinary suits

theorem create_of_fresh (holds : tree.Holds path named) (fresh : ¬ named name) :
    (create tree (Path.join path name)).result = .ok .created ∧
      (create tree (Path.join path name)).storage.Holds path
        fun other => other = name ∨ named other := by
  rw [create, holds.createExclusive_eq ordinary suits fresh]
  exact ⟨rfl, holds.insertFile name⟩

theorem create_of_named (holds : tree.Holds path named) (taken : named name) :
    (create tree (Path.join path name)).result = .ok .present ∧
      (create tree (Path.join path name)).storage = tree := by
  rw [create, holds.createExclusive_of_named ordinary suits taken]
  exact ⟨rfl, rfl⟩

/-- The directory is made along with its first entry. -/
theorem create_of_blank (blank : tree.Blank) (few : (namesOf path).length ≤ makingLimit) :
    (create tree (Path.join path name)).result = .ok .created ∧
      (create tree (Path.join path name)).storage.Holds path fun other => other = name := by
  obtain ⟨made, ensured, holds⟩ := blank.ensureDirectory_eq ordinary few
  have created := holds.createExclusive_eq ordinary suits not_false
  simp only [create, blank.createExclusive_eq ordinary suits, if_true,
    ordinary.parent_join suits.plain, ensured, created, true_and]
  exact (holds.insertFile name).congr fun other => or_iff_left not_false

/-- The directory is not made if too many would have to be. -/
theorem create_of_many (blank : tree.Blank) (many : makingLimit < (namesOf path).length) :
    (create tree (Path.join path name)).result =
      .error (.reported ⟨.createDirectory, path, .nameTooLong⟩) := by
  have refused := ordinary.ensureDirectory_of_many blank.origin (List.nil_append _).symm
    tree.chain_root (blank.bare_down _) ordinary.namesOf_ne_nil many
  simp only [create, blank.createExclusive_eq ordinary suits, if_true,
    ordinary.parent_join suits.plain, refused, ensureFailure]

theorem remove_of_named (holds : tree.Holds path named) (present : named name) :
    (remove tree (Path.join path name)).1 = .ok .removed ∧
      (remove tree (Path.join path name)).2.Holds path fun other => named other ∧ other ≠ name := by
  rw [remove, holds.unlink_eq ordinary suits present]
  exact ⟨rfl, holds.erase name⟩

theorem remove_of_not_named (holds : tree.Holds path named) (absent : ¬ named name) :
    remove tree (Path.join path name) = (.ok .absent, tree) := by
  simp only [remove, holds.unlink_of_not_named ordinary suits absent, if_true]

theorem remove_of_blank (blank : tree.Blank) :
    remove tree (Path.join path name) = (.ok .absent, tree) := by
  simp only [remove, blank.unlink_eq ordinary suits, if_true]

end

theorem reset_of_ensured {middle after : FileTree}
    (removed : tree.removeAll path = (.ok (), middle))
    (ensured : middle.ensureDirectory path = (.ok (), after)) :
    (reset tree path).result = .ok () ∧ (reset tree path).storage = after := by
  simp only [reset, removed, ensured, and_self]

theorem reset_of_holds (ordinary : Ordinary path) (holds : tree.Holds path named)
    (plain : tree.Plain) (few : (namesOf path).length ≤ makingLimit) :
    (reset tree path).result = .ok () ∧ (reset tree path).storage.Holds path fun _ => False := by
  obtain ⟨after, ensured, made⟩ := holds.eraseUnder.ensureDirectory_of_erase ordinary few
  obtain ⟨done, left⟩ := reset_of_ensured (holds.removeAll_eq ordinary plain) ensured
  exact ⟨done, left ▸ made⟩

theorem reset_of_blank (ordinary : Ordinary path) (blank : tree.Blank)
    (few : (namesOf path).length ≤ makingLimit) :
    (reset tree path).result = .ok () ∧ (reset tree path).storage.Holds path fun _ => False := by
  obtain ⟨after, ensured, made⟩ := blank.ensureDirectory_eq ordinary few
  obtain ⟨done, left⟩ := reset_of_ensured (blank.removeAll_eq ordinary) ensured
  exact ⟨done, left ▸ made⟩

/-- The files of the directory are listed. -/
theorem list_of_holds (ordinary : Ordinary path) (holds : tree.Holds path named)
    (plain : tree.Plain) : ∃ names, list tree path = .ok names ∧ ∀ name, name ∈ names ↔ named name := by
  obtain ⟨names, told, listed⟩ := list_of_stat (holds.stat ordinary)
  refine ⟨names, told, fun name => (listed name).trans ?_⟩
  rw [holds.listed name, Option.ne_none_iff_exists']
  constructor
  · rintro ⟨entry, child, _⟩
    exact ⟨entry, plain.mem_children_iff.mp child⟩
  · rintro ⟨entry, held⟩
    exact ⟨entry, plain.mem_children_iff.mpr held, holds.regular name entry held⟩

end Directory

/-- Both have nothing, or nothing but the same entries of the directory. -/
structure Mirrors (path : String) (memory : Memory) (tree : FileTree) : Prop where
  wellFormed : memory.WellFormed
  plain : tree.Plain
  stands : (∀ directory, ¬ memory.Known directory) ∧ tree.Blank ∨
    (∀ directory, memory.Known directory ↔ directory = Path.trim path) ∧
      tree.Holds path fun name => name ∈ memory.namesAt (Path.trim path)

namespace Mirrors

theorem empty : Mirrors path {} {} :=
  ⟨Memory.wellFormed_empty, plain_empty, .inl ⟨fun _ => Memory.not_known_empty, blank_empty⟩⟩

variable (ordinary : Ordinary path) (few : (namesOf path).length ≤ makingLimit)
  (mirrors : Mirrors path memory tree)

include ordinary mirrors

/-- The directory is there in both or in neither, and both list the same names. -/
theorem probe_eq : memory.probe path = tree.existsAt path ∧
    (memory.probe path = true → ∃ names, Directory.list tree path = .ok names ∧
      ∀ name, name ∈ names ↔ name ∈ memory.names path) := by
  rcases mirrors.stands with ⟨unknown, blank⟩ | ⟨known, holds⟩
  · have missing : memory.probe path = false := by
      simp only [Memory.probe, decide_eq_false_iff_not, not_or]
      exact ⟨unknown _, by simp [Memory.namesAt_of_not_known (unknown _)]⟩
    refine ⟨?_, fun found => by simp [missing] at found⟩
    rw [missing, existsAt, blank.stat ordinary]
    rfl
  · have found : memory.probe path = true := decide_eq_true (.inl ((known _).mpr rfl))
    refine ⟨?_, fun _ => Directory.list_of_holds ordinary holds mirrors.plain⟩
    rw [found, existsAt, holds.stat ordinary]
    rfl

section

variable (suits : Suits path name)

include suits

theorem remove_eq :
    Except.ok (memory.remove (Path.join path name)).1 =
        (Directory.remove tree (Path.join path name)).1 ∧
      Mirrors path (memory.remove (Path.join path name)).2
        (Directory.remove tree (Path.join path name)).2 := by
  have wellFormed : (memory.remove (Path.join path name)).2.WellFormed := mirrors.wellFormed.remove
  have plain := Directory.plain_remove mirrors.plain (Path.join path name)
  have placed := Memory.place_join ordinary.nonempty suits.plain.2
  rcases mirrors.stands with ⟨unknown, blank⟩ | ⟨known, holds⟩
  · have absent : name ∉ memory.namesAt (Path.trim path) := by
      simp [Memory.namesAt_of_not_known (unknown _)]
    have same := Directory.remove_of_blank ordinary suits blank
    simp only [Memory.remove, placed, absent, if_false, same, true_and]
    exact mirrors
  · by_cases present : name ∈ memory.namesAt (Path.trim path)
    · obtain ⟨removed, left⟩ := Directory.remove_of_named ordinary suits holds present
      refine ⟨?_, wellFormed, plain, .inr ⟨?_, left.congr fun other => ?_⟩⟩
      · simp only [Memory.remove, placed, present, if_true, removed]
      · intro directory
        rw [Memory.known_remove]
        exact known directory
      · rw [Memory.mem_namesAt_remove mirrors.wellFormed, placed]
        simp
    · have same := Directory.remove_of_not_named ordinary suits holds present
      simp only [Memory.remove, placed, present, if_false, same, true_and]
      exact mirrors

theorem not_known_join : ¬ memory.Known (Path.join path name) := by
  rcases mirrors.stands with ⟨unknown, _⟩ | ⟨known, _⟩
  · exact unknown _
  · rw [known]
    intro same
    have apart := Path.trim_join_ne ordinary.nonempty suits.plain
    rw [Path.trim_join ordinary.nonempty suits.plain] at apart
    exact apart same

include few

theorem create_eq :
    (memory.create (Path.join path name)).1 =
        (Directory.create tree (Path.join path name)).result ∧
      Mirrors path (memory.create (Path.join path name)).2
        (Directory.create tree (Path.join path name)).storage := by
  have wellFormed := mirrors.wellFormed.create (Prod.eta (memory.create (Path.join path name))).symm
  have plain := Directory.plain_create mirrors.plain (Path.join path name)
  have placed := Memory.place_join ordinary.nonempty suits.plain.2
  have created := Memory.create_join_eq ordinary.nonempty suits.plain
    (mirrors.not_known_join ordinary suits)
  by_cases present : name ∈ memory.namesAt (Path.trim path)
  · rw [if_pos present] at created
    rcases mirrors.stands with ⟨unknown, _⟩ | ⟨_, holds⟩
    · simp [Memory.namesAt_of_not_known (unknown _)] at present
    · obtain ⟨found, left⟩ := Directory.create_of_named ordinary suits holds present
      rw [created, found, left]
      exact ⟨rfl, mirrors⟩
  · rw [if_neg present] at created
    have known (directory : String) : (memory.create (Path.join path name)).2.Known directory ↔
        directory = Path.trim path ∨ memory.Known directory := by
      rw [created, Memory.known_create created, placed]
    have names (other : String) :
        other ∈ (memory.create (Path.join path name)).2.namesAt (Path.trim path) ↔
          other = name ∨ other ∈ memory.namesAt (Path.trim path) := by
      rw [created, Memory.mem_namesAt_create created, placed, Prod.mk.injEq]
      simp
    have first : (memory.create (Path.join path name)).1 = .ok .created := by rw [created]
    rcases mirrors.stands with ⟨unknown, blank⟩ | ⟨alone, holds⟩
    · obtain ⟨made, left⟩ := Directory.create_of_blank ordinary suits blank few
      refine ⟨first.trans made.symm, wellFormed, plain, .inr ⟨fun directory => ?_,
        left.congr fun other => ?_⟩⟩
      · rw [known, or_iff_left (unknown directory)]
      · rw [names, Memory.namesAt_of_not_known (unknown _), or_iff_left List.not_mem_nil]
    · obtain ⟨made, left⟩ := Directory.create_of_fresh ordinary suits holds present
      refine ⟨first.trans made.symm, wellFormed, plain, .inr ⟨fun directory => ?_,
        left.congr fun other => (names other).symm⟩⟩
      rw [known, alone, or_self]

end

include few

theorem reset_eq :
    (Directory.reset tree path).result = .ok () ∧
      Mirrors path (memory.reset path) (Directory.reset tree path).storage := by
  have names : (memory.reset path).namesAt (Path.trim path) = [] := by
    rw [Memory.namesAt_reset, if_pos (Memory.within_self _)]
  have left : (Directory.reset tree path).result = .ok () ∧
      (Directory.reset tree path).storage.Holds path fun _ => False := by
    rcases mirrors.stands with ⟨_, blank⟩ | ⟨_, holds⟩
    · exact Directory.reset_of_blank ordinary blank few
    · exact Directory.reset_of_holds ordinary holds mirrors.plain few
  have known (directory : String) :
      (memory.reset path).Known directory ↔ directory = Path.trim path := by
    rw [Memory.known_reset]
    refine ⟨?_, .inl⟩
    rintro (same | ⟨earlier, outside⟩)
    · exact same
    · rcases mirrors.stands with ⟨unknown, _⟩ | ⟨alone, _⟩
      · exact absurd earlier (unknown _)
      · exact (alone directory).mp earlier
  exact ⟨left.1, mirrors.wellFormed.reset, Directory.plain_reset mirrors.plain path,
    .inr ⟨known, left.2.congr fun name => by simp [names]⟩⟩

end Mirrors

end MarkerBus.Storage
