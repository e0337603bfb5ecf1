import Chalk.Command.FileTree
import Chalk.Proofs.Outcome

/-!
# What a written file changes

A file is written where its path leads, under the place that keeps it. Nothing is different then at
any place whose file is kept elsewhere (`node_insert_of_ne`). No directory and no link changes, so
every path leads where it led (`SameWays.walk`), and under the path that was written the new bytes
are read (`wrote_of_target`).
-/

namespace Chalk.FileTree

variable {t t' : FileTree} {place place' kept other : Place} {names : List String} {path : String}
  {bytes : List UInt8}

/-! ## Walking -/

/-- Directories and links are the same in another tree. -/
structure SameWays (t t' : FileTree) : Prop where
  directory : ∀ p, t.node p = .directory → t'.node p = .directory
  link : ∀ p target, t'.node p = .link target ↔ t.node p = .link target

namespace SameWays

theorem enter (h : SameWays t t') {name : String} (henter : t.enter place name = .ok place') :
    t'.enter place name = .ok place' := by
  unfold FileTree.enter at henter ⊢
  cases hnode : t.node place with
  | directory =>
    rw [hnode] at henter
    rw [h.directory place hnode]
    exact henter
  | file | device | link | nothing =>
    rw [hnode] at henter
    cases henter

/-- Names lead as far, if they do so behind each link. -/
theorem through (h : SameWays t t')
    {onLink onLink' : Place → String → List String → Except FileError Place}
    (hlink : ∀ p target rest, onLink p target rest = .ok place' →
      onLink' p target rest = .ok place')
    (hthrough : t.through onLink place names = .ok place') :
    t'.through onLink' place names = .ok place' := by
  induction names generalizing place with
  | nil => exact hthrough
  | cons name names ih =>
    rw [FileTree.through, bind_eq_ok_iff] at hthrough ⊢
    obtain ⟨next, hnext, hrest⟩ := hthrough
    refine ⟨next, h.enter hnext, ?_⟩
    cases hnode : t.node next with
    | link target =>
      rw [hnode] at hrest
      rw [(h.link next target).2 hnode]
      exact hlink place target names hrest
    | file | directory | device | nothing =>
      rw [hnode] at hrest
      have hstill : ∀ target, t'.node next ≠ .link target := by
        intro target htarget
        rw [(h.link next target).1 htarget] at hnode
        cases hnode
      split
      · next target htarget => exact absurd htarget (hstill target)
      · exact ih hrest

theorem follow (h : SameWays t t') (links : Nat)
    (hfollow : t.follow links place names = .ok place') :
    t'.follow links place names = .ok place' := by
  induction links generalizing place names with
  | zero => exact h.through (fun _ _ _ hlink => hlink) hfollow
  | succ links ih => exact h.through (fun _ _ _ hlink => ih hlink) hfollow

theorem walk (h : SameWays t t') (hcurrent : t'.current = t.current)
    (hwalk : t.walk path names = .ok place) : t'.walk path names = .ok place := by
  rw [FileTree.walk] at hwalk ⊢
  split at hwalk
  · cases hwalk
  · next hlength =>
    rw [if_neg hlength, hcurrent]
    exact h.follow mostLinks hwalk

end SameWays

theorem read_of_walk (hwalk : t.walk path (Path.names path) = .ok place)
    (hnode : t.node place = .file bytes) : t.read path = .ok bytes := by
  rw [read, bind_eq_ok_iff]
  refine ⟨place, hwalk, ?_⟩
  rw [hnode]

/-! ## One more file -/

theorem lookup_replace (entries : List (Place × Entry)) (kept other : Place) (bytes : List UInt8) :
    (entries.map fun (p, old) => if p = kept then (p, .file bytes) else (p, old)).lookup other =
      if other = kept then (entries.lookup other).map fun _ => .file bytes
      else entries.lookup other := by
  induction entries with
  | nil => simp
  | cons entry entries ih =>
    obtain ⟨p, old⟩ := entry
    rw [List.map_cons, List.lookup_cons, List.lookup_cons, ih]
    by_cases hp : p = kept
    · by_cases hother : other = p
      · simp [hp, hother]
      · simp [← hp, hother, beq_eq_false_iff_ne.2 hother]
    · by_cases hother : other = p
      · simp [hp, hother]
      · simp [hp, beq_eq_false_iff_ne.2 hother]

theorem lookup_insert (t : FileTree) (kept : Place) (bytes : List UInt8) (other : Place) :
    (t.insert kept bytes).entries.lookup other =
      if other = kept then some (.file bytes) else t.entries.lookup other := by
  rw [insert]
  split
  · next hsome =>
    rw [lookup_replace]
    split
    · next heq =>
      obtain ⟨old, hold⟩ := Option.isSome_iff_exists.1 hsome
      rw [heq, hold]
      rfl
    · rfl
  · next hnone =>
    rw [List.lookup_append, List.lookup_cons]
    by_cases heq : other = kept
    · rw [if_pos heq, heq, Option.not_isSome_iff_eq_none.1 hnone, beq_self_eq_true]
      rfl
    · rw [if_neg heq, beq_eq_false_iff_ne.2 heq]
      exact Option.or_none

theorem current_insert (t : FileTree) (kept : Place) (bytes : List UInt8) :
    (t.insert kept bytes).current = t.current := by
  rw [insert]
  split <;> rfl

section Insert

variable (hkept : t.owner kept = kept) (bytes : List UInt8)

include hkept

/-- Each file is kept where it was. -/
theorem owner_insert (other : Place) : (t.insert kept bytes).owner other = t.owner other := by
  by_cases heq : other = kept
  · rw [heq, hkept, owner, lookup_insert, if_pos rfl]
  · rw [owner, owner, lookup_insert, if_neg heq]

/-- Nothing changes at any place whose file is kept elsewhere. -/
theorem node_insert_of_ne (hne : t.owner other ≠ kept) :
    (t.insert kept bytes).node other = t.node other := by
  rw [node, node, owner_insert hkept, lookup_insert, if_neg hne]

theorem node_insert_of_eq (heq : t.owner other = kept) (hother : other ≠ []) :
    (t.insert kept bytes).node other = .file bytes := by
  rw [node, if_neg hother, owner_insert hkept, lookup_insert, if_pos heq]

/-- A file that stands where a file or nothing was is in no one's way. -/
theorem sameWays_insert (hplace : ∀ p, t.owner p = kept → p ≠ [] →
      t.node p ≠ .directory ∧ ∀ target, t.node p ≠ .link target) :
    SameWays t (t.insert kept bytes) := by
  have hroot : ∀ t : FileTree, t.node [] = .directory := fun _ => rfl
  have hcases : ∀ p, (t.insert kept bytes).node p = t.node p ∨
      t.owner p = kept ∧ p ≠ [] ∧ (t.insert kept bytes).node p = .file bytes := by
    intro p
    by_cases hp : p = []
    · left
      rw [hp, hroot, hroot]
    · by_cases heq : t.owner p = kept
      · exact .inr ⟨heq, hp, node_insert_of_eq hkept bytes heq hp⟩
      · exact .inl (node_insert_of_ne hkept bytes heq)
  constructor
  · intro p hdirectory
    rcases hcases p with hsame | ⟨heq, hp, -⟩
    · rw [hsame, hdirectory]
    · exact absurd hdirectory (hplace p heq hp).1
  · intro p target
    rcases hcases p with hsame | ⟨heq, hp, hfile⟩
    · rw [hsame]
    · rw [hfile]
      exact iff_of_false nofun ((hplace p heq hp).2 target)

end Insert

/-! ## Writing -/

/-- A path can be written where it leads to a file, a device, or a place with nothing at it. -/
theorem cases_of_target (h : t.target path = .ok place) :
    t.walk path (Path.names path) = .ok place ∧
      ((∃ old, t.node place = .file old) ∨ t.node place = .device ∨
        t.node place = .nothing ∧ t.owner place = place) := by
  rw [target] at h
  split at h
  · rw [bind_eq_ok_iff] at h
    obtain ⟨_, _, h⟩ := h
    rw [bind_eq_ok_iff] at h
    obtain ⟨_, _, h⟩ := h
    cases h
  · rw [bind_eq_ok_iff] at h
    obtain ⟨place', hwalk, h⟩ := h
    split at h
    · next old hfile =>
      cases h
      exact ⟨hwalk, .inl ⟨old, hfile⟩⟩
    · next hdevice =>
      cases h
      exact ⟨hwalk, .inr (.inl hdevice)⟩
    · next hnothing =>
      split at h
      · next howner =>
        cases h
        exact ⟨hwalk, .inr (.inr ⟨hnothing, howner⟩)⟩
      · cases h
    · cases h
    · cases h

/-- What a tree is like in which a path has been written: a device is as it was. Else the path has
the bytes, and what stands at a place whose file is kept elsewhere is as it was. -/
structure Wrote (t t' : FileTree) (path : String) (bytes : List UInt8) (place : Place) : Prop where
  target : t.target path = .ok place
  device : t.node place = .device → t' = t
  read : t.node place ≠ .device → t'.read path = .ok bytes
  others : ∀ other, t.owner other ≠ t.owner place → t'.node other = t.node other

theorem ne_nil_of_node (h : t.node place ≠ .directory) : place ≠ [] := by
  rintro rfl
  exact h rfl

/-- All places of one file are alike. -/
theorem node_eq_of_owner_eq (hplace : place ≠ []) (hother : other ≠ [])
    (h : t.owner other = t.owner place) : t.node other = t.node place := by
  rw [node, node, if_neg hplace, if_neg hother, h]

/-- Where there is a file, it is kept under a place that is its own. -/
theorem owner_owner_of_node {old : List UInt8} (h : t.node place = .file old) :
    t.owner (t.owner place) = t.owner place := by
  have hne : place ≠ [] := ne_nil_of_node (t := t) (by simp [h])
  rw [node, if_neg hne] at h
  generalize t.owner place = kept at h ⊢
  rw [owner]
  split
  · next kept' hsame =>
    rw [hsame] at h
    cases h
  · rfl

theorem write_of_target_eq_error {cause : FileError} (h : t.target path = .error cause)
    (bytes : List UInt8) : t.write path bytes = .error cause := by
  rw [write, h]
  rfl

/-- A path that can be written is written, and nothing else is. -/
theorem wrote_of_target (h : t.target path = .ok place) (bytes : List UInt8) :
    ∃ t', t.write path bytes = .ok t' ∧ Wrote t t' path bytes place := by
  obtain ⟨hwalk, hnode⟩ := cases_of_target h
  by_cases hdevice : t.node place = .device
  · have hwrite : t.write path bytes = .ok t := by
      simp only [write, h, bind, Except.bind, hdevice]
    exact ⟨t, hwrite, h, fun _ => rfl, fun hne => absurd hdevice hne, fun _ _ => rfl⟩
  · have hwrite : t.write path bytes = .ok (t.insert (t.owner place) bytes) := by
      simp only [write, h, bind, Except.bind]
    have hplain : t.node place ≠ .directory ∧ ∀ target, t.node place ≠ .link target := by
      rcases hnode with ⟨old, hfile⟩ | heq | ⟨hnothing, -⟩
      · simp [hfile]
      · exact absurd heq hdevice
      · simp [hnothing]
    have hkept : t.owner (t.owner place) = t.owner place := by
      rcases hnode with ⟨old, hfile⟩ | heq | ⟨-, howner⟩
      · exact owner_owner_of_node hfile
      · exact absurd heq hdevice
      · rw [howner, howner]
    have hne := ne_nil_of_node hplain.1
    have hways : SameWays t (t.insert (t.owner place) bytes) := by
      refine sameWays_insert hkept bytes fun p hp hnil => ?_
      rw [node_eq_of_owner_eq hne hnil hp]
      exact hplain
    refine ⟨_, hwrite, h, fun heq => absurd heq hdevice, fun _ => ?_, fun other hother =>
      node_insert_of_ne hkept bytes hother⟩
    exact read_of_walk (hways.walk (current_insert t _ bytes) hwalk)
      (node_insert_of_eq hkept bytes rfl hne)

end Chalk.FileTree
