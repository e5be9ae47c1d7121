import Bluefrog.Core.StoreRuns

/-!
Sweeps in a row. A sweep drops what is out of date by then, and what is out of date stays so. So a later
sweep leaves behind what it would have left without the earlier ones.
-/

open Rust

namespace Bluefrog

theorem saturatingSub_le_saturatingSub {now now' : UInt32} (h : now ≤ now') (t : UInt32) :
    saturatingSub now t ≤ saturatingSub now' t := by
  rw [UInt32.le_iff_toNat_le] at h ⊢
  rw [toNat_saturatingSub, toNat_saturatingSub]
  omega

namespace PeerList

variable {N : Nat}

/-- A peer that has timed out stays so. -/
theorem expire_expire (p : PeerList N) {now now' : UInt32} (h : now ≤ now') (timeout : UInt32) :
    (p.expire now timeout).expire now' timeout = p.expire now' timeout := by
  have hpass : (fun v : PeerVal => (if saturatingSub now v.seen < timeout then some v else none).bind fun v =>
      if saturatingSub now' v.seen < timeout then some v else none) =
        fun v => if saturatingSub now' v.seen < timeout then some v else none := by
    funext v
    have hle := saturatingSub_le_saturatingSub h v.seen
    split_ifs with hfresh hfresh' hfresh'
    · exact if_pos hfresh'
    · exact if_neg hfresh'
    · exact absurd (UInt32.lt_of_le_of_lt hle hfresh') hfresh
    · rfl
  simp only [expire, Finmap.retain_retain, hpass]

theorem expire_of_len_zero {p : PeerList N} (h : p.peers.len = 0) (now timeout : UInt32) :
    (p.expire now timeout).peers.len = 0 := by
  have hentries : p.peers.entries = 0 := Multiset.card_eq_zero.mp h
  have hretain : (p.expire now timeout).peers.entries = 0 := by
    simp only [expire, Finmap.retain, hentries, Multiset.filterMap_zero]
  rw [Finmap.len, hretain, Multiset.card_zero]

end PeerList

namespace Torrent

/-- What a sweep makes of a torrent before it decides whether to keep it. -/
def expired (t : Torrent) (now : UInt32) : Torrent :=
  { t with v4 := t.v4.expire now peerTimeoutMinutes, v6 := t.v6.expire now peerTimeoutMinutes }

/-- The torrent is collected: it is empty, and has been idle for long. -/
def Collected (t : Torrent) (now : UInt32) : Prop :=
  (t.expired now).isEmpty = true ∧ torrentTimeoutMinutes ≤ saturatingSub now t.base

instance (t : Torrent) (now : UInt32) : Decidable (t.Collected now) := inferInstanceAs (Decidable (_ ∧ _))

theorem sweep_eq (t : Torrent) (now : UInt32) :
    sweep now t = if t.Collected now then none else some (t.expired now) := by
  simp only [sweep, Collected, expired, Bool.and_eq_true, decide_eq_true_eq]
  rfl

theorem expired_expired (t : Torrent) {now now' : UInt32} (h : now ≤ now') :
    (t.expired now).expired now' = t.expired now' := by
  simp only [expired, PeerList.expire_expire _ h]

theorem isEmpty_expired {t : Torrent} (h : t.isEmpty = true) (now : UInt32) : (t.expired now).isEmpty = true := by
  simp only [isEmpty, expired, Bool.and_eq_true, beq_iff_eq] at h ⊢
  obtain ⟨⟨⟨h4, h6⟩, hdown4⟩, hdown6⟩ := h
  exact ⟨⟨⟨PeerList.expire_of_len_zero h4 _ _, PeerList.expire_of_len_zero h6 _ _⟩, hdown4⟩, hdown6⟩

/-- What an earlier sweep would collect, so does a later one. -/
theorem Collected.mono {t : Torrent} {now now' : UInt32} (hle : now ≤ now') (h : t.Collected now) :
    t.Collected now' := by
  refine ⟨?_, UInt32.le_trans h.2 (saturatingSub_le_saturatingSub hle t.base)⟩
  rw [← t.expired_expired hle]
  exact isEmpty_expired h.1 now'

/-- A later sweep of a torrent does not tell whether there was an earlier one. -/
theorem sweep_bind_sweep (t : Torrent) {now now' : UInt32} (h : now ≤ now') :
    (sweep now t).bind (sweep now') = sweep now' t := by
  by_cases hcollected : t.Collected now
  · rw [sweep_eq t now, if_pos hcollected, Option.bind_none, sweep_eq, if_pos (hcollected.mono h)]
  · have hsame : (t.expired now).Collected now' ↔ t.Collected now' := by
      rw [Collected, t.expired_expired h]
      rfl
    rw [sweep_eq t now, if_neg hcollected, Option.bind_some, sweep_eq, sweep_eq, t.expired_expired h]
    simp only [hsame]

end Torrent

namespace Store

theorem gc_gc (s : Store) {now now' : UInt32} (h : now ≤ now') : (s.gc now).gc now' = s.gc now' := by
  have hpass : (fun t : Torrent => (Torrent.sweep now t).bind (Torrent.sweep now')) = Torrent.sweep now' := by
    funext t
    exact t.sweep_bind_sweep h
  simp only [gc, Finmap.retain_retain, hpass]

/-- **A sweep absorbs the sweeps before it.** One earlier sweep, the same sweep again, or any number of
earlier ones: the store that the last one leaves behind is the same. -/
theorem gc_absorbs (s : Store) {now now' : UInt32} (h : now ≤ now') :
    (s.gc now).gc now' = s.gc now' ∧ (s.gc now').gc now' = s.gc now' ∧
      ∀ times : List UInt32, (∀ t ∈ times, t ≤ now') → (times.foldl gc s).gc now' = s.gc now' := by
  refine ⟨gc_gc s h, gc_gc s (UInt32.le_refl now'), fun times => ?_⟩
  induction times generalizing s with
  | nil => exact fun _ => rfl
  | cons t times ih =>
      intro htimes
      rw [List.foldl_cons, ih (s.gc t) fun t' ht' => htimes t' (List.mem_cons_of_mem t ht')]
      exact gc_gc s (htimes t List.mem_cons_self)

/-- A peer announced at minute 10 is gone after the sweep at minute 60, whether or not there was one at 20. -/
theorem gc_absorbs_stale :
    ((run .arbitrary [.announce ⟨.replicate _ 1, .v4, .replicate _ 2⟩ 0 50 10 []]).gc 20).gc 60 =
      (run .arbitrary [.announce ⟨.replicate _ 1, .v4, .replicate _ 2⟩ 0 50 10 []]).gc 60 :=
  (gc_absorbs _ (by decide : (20 : UInt32) ≤ 60)).1

end Store
end Bluefrog
