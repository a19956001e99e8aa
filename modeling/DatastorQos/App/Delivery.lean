import DatastorQos.App.Manager

/-!
# datastor_qos — which groups an operation settles

An operation of the manager is a sequence of `to_got` and `to_failed` calls on
requests in `init`, wherever it makes them. What they do to the groups is always
the same: a group with nothing left in `init` never changes again, and the list
of settled groups the operation collects holds each group it settles once and
no other (`Settles`). With the callbacks of `end_token_grps` in place of the
list this is `Delivers`, and both compose.
-/

namespace DatastorQos

open Keyed GrpHeap

variable {Id : Type}

/-- Between memory `h` and memory `h'` exactly the groups in `settled` lost
their last request in `init`. -/
structure Settles (h : GrpHeap Id) (settled : List GrpPtr) (h' : GrpHeap Id) : Prop where
  sound   : h'.Sound
  domain  : ∀ gid, (group? h' gid).isSome = (group? h gid).isSome
  kept    : ∀ gid g, group? h gid = some g → g.initNr = 0 → group? h' gid = some g
  counted : ∀ gid g g', group? h gid = some g → group? h' gid = some g' →
    settled.count gid = if g.initNr ≠ 0 ∧ g'.initNr = 0 then 1 else 0
  listed  : ∀ gid ∈ settled, ∃ g', group? h' gid = some g' ∧ g'.initNr = 0

theorem GrpHeap.group?_some_of_isSome {h h' : GrpHeap Id} {gid : GrpPtr} {g : TokenReqgrp Id}
    (hDomain : (group? h' gid).isSome = (group? h gid).isSome) (hg : group? h gid = some g) :
    ∃ g', group? h' gid = some g' := by
  rw [hg] at hDomain
  exact Option.isSome_iff_exists.mp hDomain

theorem GrpHeap.group?_none_of_isSome {h h' : GrpHeap Id} {gid : GrpPtr}
    (hDomain : (group? h' gid).isSome = (group? h gid).isSome) (hg : group? h gid = none) :
    group? h' gid = none := by
  rw [hg] at hDomain
  exact Option.not_isSome_iff_eq_none.mp (by simp [hDomain])

namespace Settles

variable {h h₁ h' : GrpHeap Id} {l l' : List GrpPtr}

theorem refl (hs : h.Sound) : Settles h [] h where
  sound   := hs
  domain  := fun _ => rfl
  kept    := fun _ _ hg _ => hg
  counted := by
    intro gid g g' hg hg'
    obtain rfl := Option.some.inj (hg.symm.trans hg')
    simp
  listed  := by simp

/-- The lists are accumulated by `list_add`: the later one is in front. -/
theorem trans (a : Settles h l h₁) (b : Settles h₁ l' h') : Settles h (l' ++ l) h' where
  sound   := b.sound
  domain  := fun gid => (b.domain gid).trans (a.domain gid)
  kept    := fun gid g hg hz => b.kept gid g (a.kept gid g hg hz) hz
  counted := by
    intro gid g g' hg hg'
    obtain ⟨g₁, hg₁⟩ := group?_some_of_isSome (a.domain gid) hg
    rw [List.count_append, a.counted gid g g₁ hg hg₁, b.counted gid g₁ g' hg₁ hg']
    by_cases hz : g.initNr = 0
    · -- settled before: nothing changes
      have hg₁' := a.kept gid g hg hz
      obtain rfl := Option.some.inj (hg₁.symm.trans hg₁')
      simp [hz]
    · by_cases hz₁ : g₁.initNr = 0
      · have hg'' := b.kept gid g₁ hg₁ hz₁
        obtain rfl := Option.some.inj (hg'.symm.trans hg'')
        simp [hz, hz₁]
      · simp [hz, hz₁]
  listed  := by
    intro gid hgid
    rcases List.mem_append.mp hgid with hgid | hgid
    · exact b.listed gid hgid
    · obtain ⟨g₁, hg₁, hz⟩ := a.listed gid hgid
      exact ⟨g₁, b.kept gid g₁ hg₁ hz, hz⟩

/-- One `to_got` or `to_failed` call on a request in `init`. -/
theorem of_resolved {p : ReqPtr} {s : AppTokenStat} {err : QosError}
    (hr : GrpHeap.Resolved h p s h' err) :
    Settles h (if err = .pending then [] else [p.grp]) h' := by
  obtain ⟨g, g', hg, hRes, hOther⟩ := hr.group
  have hPos : g.initNr ≠ 0 := by
    have := hRes.initNr_eq
    omega
  have hErr : err = .pending ↔ g'.initNr ≠ 0 := by
    rw [hRes.err_eq]
    by_cases hz : g'.initNr = 0
    · have := hRes.sound.err_eq
      rw [if_pos hz] at this
      simp [hz, this, TokenReqgrp.verdictFlag_ne_pending]
    · simp [hz]
  refine ⟨hr.sound, fun gid => ?_, fun gid g₀ hg₀ hz => ?_, fun gid g₀ g₁ hg₀ hg₁ => ?_,
    fun gid hgid => ?_⟩
  · rw [hOther]
    split
    · rename_i heq
      rw [heq, hg]
      rfl
    · rfl
  · rw [hOther, if_neg, hg₀]
    rintro rfl
    obtain rfl := Option.some.inj (hg.symm.trans hg₀)
    exact hPos hz
  · rw [hOther] at hg₁
    by_cases heq : gid = p.grp
    · subst heq
      obtain rfl := Option.some.inj (hg.symm.trans hg₀)
      rw [if_pos rfl] at hg₁
      obtain rfl := Option.some.inj hg₁
      by_cases hz : g'.initNr = 0
      · rw [if_neg fun hp => (hErr.mp hp) hz]
        simp [hPos, hz]
      · rw [if_pos (hErr.mpr hz)]
        simp [hz]
    · rw [if_neg heq, hg₀] at hg₁
      obtain rfl := Option.some.inj hg₁
      have : ¬ (g₀.initNr ≠ 0 ∧ g₀.initNr = 0) := fun hz => hz.1 hz.2
      rw [if_neg this]
      split
      · rfl
      · simp [Ne.symm heq]
  · have hne : err ≠ .pending := by
      rintro rfl
      simp at hgid
    rw [if_neg hne, List.mem_singleton] at hgid
    subst hgid
    refine ⟨g', by rw [hOther, if_pos rfl], ?_⟩
    by_contra hz
    exact hne (hErr.mpr hz)

end Settles

/-- The group is live and has nothing left in `init`. -/
def GrpHeap.Settled (h : GrpHeap Id) (gid : GrpPtr) : Prop :=
  ∃ g, group? h gid = some g ∧ g.initNr = 0

/-- Between memory `h` and memory `h'` the callbacks made are one for each group
that lost its last request in `init`, with that group's `pri` and `err`. -/
structure Delivers (h : GrpHeap Id) (callbacks : List Callback) (h' : GrpHeap Id) : Prop where
  sound   : h'.Sound
  domain  : ∀ gid, (group? h' gid).isSome = (group? h gid).isSome
  kept    : ∀ gid g, group? h gid = some g → g.initNr = 0 → group? h' gid = some g
  counted : ∀ gid g g', group? h gid = some g → group? h' gid = some g' →
    callbacks.countP (fun cb => cb.grp = gid) = if g.initNr ≠ 0 ∧ g'.initNr = 0 then 1 else 0
  carries : ∀ cb ∈ callbacks, ∃ g', group? h' cb.grp = some g' ∧ g'.initNr = 0 ∧
    cb.pri = g'.pri ∧ cb.err = g'.err

theorem countP_endTokenGrps {h : GrpHeap Id} {l : List GrpPtr} (gid : GrpPtr)
    (hl : ∀ gid ∈ l, ∃ g', group? h gid = some g' ∧ g'.initNr = 0) :
    (endTokenGrps h l).countP (fun cb => cb.grp = gid) = l.count gid := by
  induction l with
  | nil => rfl
  | cons gid' rest ih =>
    obtain ⟨g', hg', -⟩ := hl gid' (List.mem_cons_self)
    have ih := ih fun gid hgid => hl gid (List.mem_cons_of_mem _ hgid)
    unfold endTokenGrps at ih ⊢
    rw [List.filterMap_cons_some (b := ⟨gid', g'.pri, g'.err⟩) (by rw [hg']; rfl),
      List.countP_cons, List.count_cons, ih]
    simp

theorem Settles.delivers {h h' : GrpHeap Id} {l : List GrpPtr} (hs : Settles h l h') :
    Delivers h (endTokenGrps h' l) h' where
  sound   := hs.sound
  domain  := hs.domain
  kept    := hs.kept
  counted := by
    intro gid g g' hg hg'
    rw [countP_endTokenGrps gid hs.listed]
    exact hs.counted gid g g' hg hg'
  carries := by
    intro cb hcb
    obtain ⟨gid, hgid, heq⟩ := List.mem_filterMap.mp hcb
    obtain ⟨g', hg', hz⟩ := hs.listed gid hgid
    rw [hg'] at heq
    obtain rfl := Option.some.inj heq
    exact ⟨g', hg', hz, rfl, rfl⟩

namespace Delivers

variable {h h₁ h' : GrpHeap Id} {l l' : List Callback}

theorem refl (hs : h.Sound) : Delivers h [] h where
  sound   := hs
  domain  := fun _ => rfl
  kept    := fun _ _ hg _ => hg
  counted := by
    intro gid g g' hg hg'
    obtain rfl := Option.some.inj (hg.symm.trans hg')
    simp
  carries := by simp

theorem trans (a : Delivers h l h₁) (b : Delivers h₁ l' h') : Delivers h (l ++ l') h' where
  sound   := b.sound
  domain  := fun gid => (b.domain gid).trans (a.domain gid)
  kept    := fun gid g hg hz => b.kept gid g (a.kept gid g hg hz) hz
  counted := by
    intro gid g g' hg hg'
    obtain ⟨g₁, hg₁⟩ := group?_some_of_isSome (a.domain gid) hg
    rw [List.countP_append, a.counted gid g g₁ hg hg₁, b.counted gid g₁ g' hg₁ hg']
    by_cases hz : g.initNr = 0
    · have hg₁' := a.kept gid g hg hz
      obtain rfl := Option.some.inj (hg₁.symm.trans hg₁')
      simp [hz]
    · by_cases hz₁ : g₁.initNr = 0
      · have hg'' := b.kept gid g₁ hg₁ hz₁
        obtain rfl := Option.some.inj (hg'.symm.trans hg'')
        simp [hz, hz₁]
      · simp [hz, hz₁]
  carries := by
    intro cb hcb
    rcases List.mem_append.mp hcb with hcb | hcb
    · obtain ⟨g₁, hg₁, hz, hcb⟩ := a.carries cb hcb
      exact ⟨g₁, b.kept _ g₁ hg₁ hz, hz, hcb⟩
    · exact b.carries cb hcb

/-- A group settled before is not called back. -/
theorem not_called (a : Delivers h l h') {gid : GrpPtr} (hs : h.Settled gid) :
    ∀ cb ∈ l, cb.grp ≠ gid := by
  obtain ⟨g, hg, hz⟩ := hs
  have := a.counted gid g g hg (a.kept gid g hg hz)
  rw [if_neg fun hc => hc.1 hz, List.countP_eq_zero] at this
  simpa using this

/-- The settled groups are those settled before and those called back. -/
theorem settled_iff (a : Delivers h l h') (gid : GrpPtr) :
    h'.Settled gid ↔ gid ∈ l.map Callback.grp ∨ h.Settled gid := by
  constructor
  · rintro ⟨g', hg', hz'⟩
    obtain ⟨g, hg⟩ := group?_some_of_isSome (a.domain gid).symm hg'
    by_cases hz : g.initNr = 0
    · exact Or.inr ⟨g, hg, hz⟩
    · have hCount := a.counted gid g g' hg hg'
      rw [if_pos ⟨hz, hz'⟩] at hCount
      obtain ⟨cb, hcb, hgrp⟩ := List.countP_pos_iff.mp (hCount ▸ Nat.one_pos)
      exact Or.inl (List.mem_map.mpr ⟨cb, hcb, of_decide_eq_true hgrp⟩)
  · rintro (hgid | ⟨g, hg, hz⟩)
    · obtain ⟨cb, hcb, rfl⟩ := List.mem_map.mp hgid
      obtain ⟨g', hg', hz', -⟩ := a.carries cb hcb
      exact ⟨g', hg', hz'⟩
    · exact ⟨g, a.kept gid g hg hz, hz⟩

end Delivers

end DatastorQos
