import OmryaKv.Snapshot.Tracker
import OmryaKv.Lib.Run
import Mathlib.Order.MinMax

set_option autoImplicit false

namespace OmryaKv.Snapshot

open Lib SnapshotTracker

variable (keys : List Nat)

theorem lowest_mem (nonempty : keys ≠ []) (lowest : Nat) :
    keys.foldl lower lowest ∈ lowest :: keys ∧ (lowest = 0 → keys.foldl lower lowest ∈ keys) := by
  induction keys generalizing lowest with
  | nil => exact absurd rfl nonempty
  | cons key tail ih =>
    have stepped : lower lowest key = lowest ∨ lower lowest key = key := by
      cases lowest with
      | zero => exact .inr rfl
      | succ lo => exact min_choice (lo + 1) key
    have fresh : lowest = 0 → lower lowest key = key := by
      rintro rfl
      rfl
    rw [List.foldl_cons]
    by_cases last : tail = []
    · subst last
      refine ⟨?_, fun zero => by simp [fresh zero]⟩
      rcases stepped with same | same <;> simp [same]
    · have inner := (ih last (lower lowest key)).1
      constructor
      · rcases stepped with same | same <;> rw [same] at inner ⊢
        · exact List.mem_cons.mpr ((List.mem_cons.mp inner).imp_right (List.mem_cons_of_mem key))
        · exact List.mem_cons_of_mem _ inner
      · intro zero
        rwa [fresh zero] at inner ⊢

theorem lowest_le (nonzero : 0 ∉ keys) (lowest : Nat) :
    (∀ key ∈ keys, keys.foldl lower lowest ≤ key) ∧ (0 < lowest → keys.foldl lower lowest ≤ lowest) := by
  induction keys generalizing lowest with
  | nil => simp
  | cons key tail ih =>
    simp only [List.mem_cons, not_or] at nonzero
    have next := ih nonzero.2 (lower lowest key)
    have bound : 0 < lower lowest key ∧ lower lowest key ≤ key ∧ (0 < lowest → lower lowest key ≤ lowest) := by
      cases lowest with
      | zero => exact ⟨Nat.pos_of_ne_zero (Ne.symm nonzero.1), Nat.le_refl _, by simp⟩
      | succ lo =>
        simp only [lower]
        omega
    have whole := next.2 bound.1
    rw [List.foldl_cons]
    refine ⟨?_, fun positive => whole.trans (bound.2.2 positive)⟩
    intro other member
    rcases List.mem_cons.mp member with rfl | later
    · exact whole.trans bound.2.1
    · exact next.1 other later

-- What gc still visits once it has met the sentinel value as a real key.
def afterZero (keys : List Nat) : List Nat := (keys.dropWhile (· ≠ 0)).tail

theorem split_at_zero (present : 0 ∈ keys) : keys = keys.takeWhile (· ≠ 0) ++ 0 :: afterZero keys := by
  induction keys with
  | nil => simp at present
  | cons key tail ih =>
    by_cases zero : key = 0
    · simp [afterZero, zero]
    · have later : 0 ∈ tail := (List.mem_cons.mp present).resolve_left (Ne.symm zero)
      have skipped : afterZero (key :: tail) = afterZero tail := by simp [afterZero, zero]
      rw [skipped, List.takeWhile_cons_of_pos (by simp [zero]), List.cons_append, ← ih later]

theorem after_zero_mem (present : 0 ∈ keys) (key : Nat) (member : key ∈ afterZero keys) : key ∈ keys := by
  rw [split_at_zero keys present]
  exact List.mem_append_right _ (List.mem_cons_of_mem 0 member)

theorem after_zero_nonzero (nodup : keys.Nodup) (present : 0 ∈ keys) : 0 ∉ afterZero keys := by
  rw [split_at_zero keys present] at nodup
  exact (List.nodup_cons.mp nodup.of_append_right).1

theorem lowest_restarts_at_zero (present : 0 ∈ keys) : keys.foldl lower 0 = (afterZero keys).foldl lower 0 := by
  conv_lhs => rw [split_at_zero keys present, List.foldl_append, List.foldl_cons]
  congr 1
  generalize (keys.takeWhile (· ≠ 0)).foldl lower 0 = lowest
  cases lowest with
  | zero => rfl
  | succ lo => exact Nat.min_zero _

-- opens holds one instant for each snapshot nonce that is still alive.
structure Tracked where
  tracker : SnapshotTracker
  opens : List Nat
deriving DecidableEq

inductive TrackerOp where
  | openSnapshot
  | cloneSnapshot (instant : Nat)
  | close (instant : Nat) (order : IterationOrder Nat)
  | publish (batchSeqno : Nat)
  | pullup
  | gc (order : IterationOrder Nat)

-- Only a nonce that is alive can be cloned or closed, and closing consumes it.
def Tracked.Enabled (s : Tracked) : TrackerOp → Prop
  | .cloneSnapshot instant => instant ∈ s.opens
  | .close instant _ => instant ∈ s.opens
  | _ => True

def Tracked.apply (s : Tracked) : TrackerOp → Tracked
  | .openSnapshot => ⟨s.tracker.openSnapshot.2, s.tracker.openSnapshot.1 :: s.opens⟩
  | .cloneSnapshot instant => ⟨s.tracker.cloneSnapshot instant, instant :: s.opens⟩
  | .close instant order => ⟨s.tracker.closeRaw instant order, s.opens.erase instant⟩
  | .publish batchSeqno => ⟨s.tracker.publish batchSeqno, s.opens⟩
  | .pullup => ⟨s.tracker.pullup, s.opens⟩
  | .gc order => ⟨s.tracker.gc order, s.opens⟩

def TrackerStep (s : Tracked) (op : TrackerOp) (next : Tracked) : Prop := s.Enabled op ∧ next = s.apply op

structure TrackerInv (s : Tracked) : Prop where
  exact : ∀ instant, s.tracker.data.count instant = s.opens.count instant
  keysPublished : ∀ entry ∈ s.tracker.data.entries, entry.1 ≤ s.tracker.seqno
  watermarkPublished : s.tracker.lowestFreedInstant ≤ s.tracker.seqno - 1

theorem tracker_inv_initial (seqno : Nat) : TrackerInv ⟨.new seqno, []⟩ :=
  ⟨fun _ => rfl, fun _ member => by simp [SnapshotTracker.new, CountMap.empty] at member, Nat.zero_le _⟩

variable (s : Tracked)

theorem open_instant_published (inv : TrackerInv s) (instant : Nat) (alive : instant ∈ s.opens) :
    instant ≤ s.tracker.seqno := by
  have live : 0 < s.tracker.data.count instant := by rw [inv.exact]; exact List.count_pos_iff.mpr alive
  exact inv.keysPublished _ (CountMap.mem_of_count_pos _ _ live)

theorem increment_keys (m : CountMap Nat) (instant bound : Nat) (known : instant ≤ bound)
    (bounded : ∀ entry ∈ m.entries, entry.1 ≤ bound) (entry : Nat × Nat)
    (member : entry ∈ (m.increment instant).entries) : entry.1 ≤ bound := by
  unfold CountMap.increment at member
  split at member
  · obtain ⟨original, stored, rfl⟩ := List.mem_map.mp member
    split
    · exact known
    · exact bounded original stored
  · rcases List.mem_cons.mp member with rfl | stored
    · exact known
    · exact bounded entry stored

theorem release_inv (inv : TrackerInv s) (instant : Nat) (alive : instant ∈ s.opens) :
    TrackerInv ⟨s.tracker.release instant, s.opens.erase instant⟩ := by
  refine ⟨?_, ?_, inv.watermarkPublished⟩
  · intro other
    have counted := CountMap.count_decrement s.tracker.data instant other
    simp only [release, counted, inv.exact, List.count_erase]
    by_cases same : other = instant
    · simp [same]
    · simp [same, Ne.symm same]
  · intro entry member
    obtain ⟨original, stored, rfl⟩ := List.mem_map.mp member
    split
    · exact open_instant_published s inv instant alive
    · exact inv.keysPublished original stored

theorem lowest_retained_published (t : SnapshotTracker) (order : IterationOrder Nat)
    (bounded : ∀ entry ∈ t.data.entries, entry.1 ≤ t.seqno) :
    (if t.retainedKeys order = [] then t.seqno else (t.retainedKeys order).foldl lower 0) ≤ t.seqno := by
  split
  · exact Nat.le_refl _
  · next retained =>
      obtain ⟨value, stored⟩ := retained_keys_stored t order _ ((lowest_mem _ retained 0).2 rfl)
      exact bounded _ stored

theorem gc_inv (inv : TrackerInv s) (order : IterationOrder Nat) : TrackerInv ⟨s.tracker.gc order, s.opens⟩ := by
  refine ⟨fun instant => by rw [gc_count]; exact inv.exact instant,
    fun entry member => inv.keysPublished entry (gc_entries s.tracker order entry member), ?_⟩
  have published := lowest_retained_published s.tracker order inv.keysPublished
  have before := inv.watermarkPublished
  rw [gc_watermark, gc_seqno]
  omega

variable (next : Tracked)

theorem tracker_step_inv (op : TrackerOp) (inv : TrackerInv s) (step : TrackerStep s op next) : TrackerInv next := by
  obtain ⟨enabled, rfl⟩ := step
  cases op with
  | openSnapshot =>
    refine ⟨?_, increment_keys _ _ _ (Nat.le_refl _) inv.keysPublished, inv.watermarkPublished⟩
    intro instant
    simp only [Tracked.apply, openSnapshot, CountMap.count_increment, List.count_cons, inv.exact]
    by_cases same : instant = s.tracker.seqno
    · simp [same]
    · simp [same, Ne.symm same]
  | cloneSnapshot cloned =>
    refine ⟨?_, increment_keys _ _ _ (open_instant_published s inv cloned enabled) inv.keysPublished,
      inv.watermarkPublished⟩
    intro instant
    simp only [Tracked.apply, cloneSnapshot, CountMap.count_increment, List.count_cons, inv.exact]
    by_cases same : instant = cloned
    · simp [same]
    · simp [same, Ne.symm same]
  | close instant order =>
    have released := release_inv s inv instant enabled
    unfold Tracked.apply closeRaw
    dsimp only
    split
    · exact gc_inv _ released order
    · exact released
  | publish batchSeqno =>
    refine ⟨inv.exact, ?_, ?_⟩
    · intro entry member
      exact (inv.keysPublished entry member).trans (Nat.le_max_left _ _)
    · have before := inv.watermarkPublished
      simp only [Tracked.apply, SnapshotTracker.publish]
      omega
  | pullup =>
    change TrackerInv ⟨s.tracker.pullup, s.opens⟩
    unfold SnapshotTracker.pullup
    split
    · exact ⟨inv.exact, inv.keysPublished, Nat.le_refl _⟩
    · exact inv
  | gc order => exact gc_inv s inv order

theorem tracker_step_monotone (op : TrackerOp) (inv : TrackerInv s) (step : TrackerStep s op next) :
    s.tracker.getSeqnoSafeToGc ≤ next.tracker.getSeqnoSafeToGc := by
  obtain ⟨_, rfl⟩ := step
  have raised (t : SnapshotTracker) (order : IterationOrder Nat) : t.lowestFreedInstant ≤ (t.gc order).lowestFreedInstant := by
    rw [gc_watermark]
    exact Nat.le_max_left _ _
  cases op with
  | close instant order =>
    unfold Tracked.apply closeRaw
    dsimp only [getSeqnoSafeToGc]
    split
    · exact raised (s.tracker.release instant) order
    · exact Nat.le_refl _
  | pullup =>
    -- pullup stores instead of taking a maximum; the invariant bounds what it overwrites.
    change s.tracker.lowestFreedInstant ≤ s.tracker.pullup.lowestFreedInstant
    unfold SnapshotTracker.pullup
    split
    · exact inv.watermarkPublished
    · exact Nat.le_refl _
  | gc order => exact raised s.tracker order
  | _ => exact Nat.le_refl _

def Below (s : Tracked) : Prop := ∀ instant ∈ s.opens, s.tracker.getSeqnoSafeToGc ≤ instant - 1

-- gc forgets what it has retained so far when it visits instant 0, unless
-- nothing follows or the restarted minimum still comes out as 1.
def ZeroVisitedLate (t : SnapshotTracker) (order : IterationOrder Nat) : Prop :=
  0 ∈ t.retainedKeys order → afterZero (t.retainedKeys order) = [] ∨ 1 ∈ afterZero (t.retainedKeys order)

def GcSafe (s : Tracked) : TrackerOp → Prop
  | .gc order => ZeroVisitedLate s.tracker order
  | .close instant order =>
    (s.tracker.release instant).freedCount % 10000 = 0 → ZeroVisitedLate (s.tracker.release instant) order
  | _ => True

theorem gc_below (inv : TrackerInv s) (order : IterationOrder Nat) (below : Below s)
    (safe : ZeroVisitedLate s.tracker order) : Below ⟨s.tracker.gc order, s.opens⟩ := by
  intro instant alive
  have before : s.tracker.lowestFreedInstant ≤ instant - 1 := below instant alive
  have live : 0 < s.tracker.data.count instant := by rw [inv.exact]; exact List.count_pos_iff.mpr alive
  have retained := open_instant_retained s.tracker order instant live
  have nonempty : s.tracker.retainedKeys order ≠ [] := List.ne_nil_of_mem retained
  rw [getSeqnoSafeToGc, gc_watermark, if_neg nonempty]
  refine Nat.max_le.mpr ⟨before, ?_⟩
  by_cases zero : 0 ∈ s.tracker.retainedKeys order
  · have low : (afterZero (s.tracker.retainedKeys order)).foldl lower 0 ≤ 1 := by
      rcases safe zero with last | one
      · simp [last]
      · exact (lowest_le _ (after_zero_nonzero _ (retained_keys_nodup s.tracker order) zero) 0).1 1 one
    rw [lowest_restarts_at_zero _ zero]
    omega
  · exact Nat.sub_le_sub_right ((lowest_le _ zero 0).1 instant retained) 1

theorem gc_exceeds (inv : TrackerInv s) (order : IterationOrder Nat)
    (hazard : ¬ ZeroVisitedLate s.tracker order) : ¬ Below ⟨s.tracker.gc order, s.opens⟩ := by
  simp only [ZeroVisitedLate, Classical.not_imp, not_or] at hazard
  obtain ⟨zero, more, notOne⟩ := hazard
  have lowest := (lowest_mem _ more 0).2 rfl
  have two : 2 ≤ (afterZero (s.tracker.retainedKeys order)).foldl lower 0 := by
    generalize (afterZero (s.tracker.retainedKeys order)).foldl lower 0 = low at lowest
    match low with
    | 0 => exact absurd lowest (after_zero_nonzero _ (retained_keys_nodup s.tracker order) zero)
    | 1 => exact absurd lowest notOne
    | low + 2 => omega
  obtain ⟨value, stored⟩ := retained_keys_stored s.tracker order _ (after_zero_mem _ zero _ lowest)
  have published : _ ≤ s.tracker.seqno := inv.keysPublished _ stored
  obtain ⟨⟨_, held⟩, kept, rfl : _ = 0⟩ := List.mem_map.mp zero
  obtain ⟨visited, retained⟩ := List.mem_filter.mp kept
  have held_pos : 0 < held := by
    simp only [shouldBeRetained, Bool.or_eq_true, decide_eq_true_eq] at retained
    omega
  have counted : s.tracker.data.count 0 = held := CountMap.count_of_mem _ _ _ ((order.perm _).mem_iff.mp visited)
  have alive : 0 ∈ s.opens := by
    apply List.count_pos_iff.mp
    rw [← inv.exact, counted]
    exact held_pos
  intro below
  have exceeded := below 0 alive
  rw [getSeqnoSafeToGc, gc_watermark, if_neg (List.ne_nil_of_mem zero), lowest_restarts_at_zero _ zero] at exceeded
  omega

theorem tracker_step_below (op : TrackerOp) (inv : TrackerInv s) (below : Below s) (step : TrackerStep s op next)
    (safe : GcSafe s op) : Below next := by
  obtain ⟨enabled, rfl⟩ := step
  cases op with
  | openSnapshot =>
    intro instant alive
    rcases List.mem_cons.mp alive with rfl | older
    · exact inv.watermarkPublished
    · exact below instant older
  | cloneSnapshot cloned =>
    intro instant alive
    rcases List.mem_cons.mp alive with rfl | older
    · exact below instant enabled
    · exact below instant older
  | close instant order =>
    have released : Below ⟨s.tracker.release instant, s.opens.erase instant⟩ :=
      fun other alive => below other (List.mem_of_mem_erase alive)
    unfold Tracked.apply closeRaw
    dsimp only
    split
    · next due => exact gc_below _ (release_inv s inv instant enabled) order released (safe due)
    · exact released
  | publish batchSeqno => exact below
  | pullup =>
    change Below ⟨s.tracker.pullup, s.opens⟩
    unfold SnapshotTracker.pullup
    split
    · next empty =>
        intro instant alive
        have live : 0 < s.tracker.data.count instant := by rw [inv.exact]; exact List.count_pos_iff.mpr alive
        have stored := CountMap.mem_of_count_pos _ _ live
        rw [List.isEmpty_iff.mp empty] at stored
        cases stored
    · exact below
  | gc order => exact gc_below s inv order below safe

theorem tracker_step_exceeds (op : TrackerOp) (inv : TrackerInv s) (step : TrackerStep s op next)
    (hazard : ¬ GcSafe s op) : ¬ Below next := by
  obtain ⟨enabled, rfl⟩ := step
  cases op with
  | close instant order =>
    simp only [GcSafe, Classical.not_imp] at hazard
    have exceeded := gc_exceeds _ (release_inv s inv instant enabled) order hazard.2
    simpa only [Tracked.apply, closeRaw, if_pos hazard.1] using exceeded
  | gc order => exact gc_exceeds s inv order hazard
  | _ => exact absurd trivial hazard

theorem watermark_below_open_snapshots (seqno : Nat) :
    (∀ ops s, Run (Guarded TrackerStep GcSafe) ⟨.new seqno, []⟩ ops s → Below s) ∧
    (∀ ops s op next, Run (Guarded TrackerStep GcSafe) ⟨.new seqno, []⟩ ops s → TrackerStep s op next →
      ¬ GcSafe s op → ¬ Below next) ∧
    (∀ ops s more last, Run TrackerStep ⟨.new seqno, []⟩ ops s → Run TrackerStep s more last →
      s.tracker.getSeqnoSafeToGc ≤ last.tracker.getSeqnoSafeToGc) := by
  have guarded : ∀ ops s, Run (Guarded TrackerStep GcSafe) ⟨.new seqno, []⟩ ops s → TrackerInv s ∧ Below s := by
    intro ops s run
    refine run_invariant _ (fun s => TrackerInv s ∧ Below s) ?_ run ⟨tracker_inv_initial seqno, by simp [Below]⟩
    intro s op next inv step
    exact ⟨tracker_step_inv s next op inv.1 step.2, tracker_step_below s next op inv.1 inv.2 step.2 step.1⟩
  refine ⟨fun ops s run => (guarded ops s run).2, ?_, ?_⟩
  · intro ops s op next run step hazard
    exact tracker_step_exceeds s next op (guarded ops s run).1 step hazard
  · intro ops s more last run later
    have preserved := fun s op next inv step => tracker_step_inv s next op inv step
    exact run_related TrackerStep TrackerInv (fun a b => a.tracker.getSeqnoSafeToGc ≤ b.tracker.getSeqnoSafeToGc)
      preserved (fun _ => Nat.le_refl _) (fun _ _ _ => Nat.le_trans)
      (fun s op next inv step => tracker_step_monotone s next op inv step)
      later (run_invariant TrackerStep TrackerInv preserved run (tracker_inv_initial seqno))

theorem watermark_below_two_snapshots :
    ∃ s, Run (Guarded TrackerStep GcSafe) ⟨.new 0, []⟩
        [.openSnapshot, .publish 1, .openSnapshot, .gc CountMap.inStoredOrder] s ∧ 2 ∈ s.opens ∧ Below s := by
  have reached : ∃ s, Run (Guarded TrackerStep GcSafe) ⟨.new 0, []⟩
      [.openSnapshot, .publish 1, .openSnapshot, .gc CountMap.inStoredOrder] s ∧ 2 ∈ s.opens :=
    ⟨_, .cons _ _ ⟨trivial, trivial, rfl⟩ (.cons _ _ ⟨trivial, trivial, rfl⟩ (.cons _ _ ⟨trivial, trivial, rfl⟩
      (.cons _ _ ⟨fun _ => .inl (by decide), trivial, rfl⟩ (.nil _)))), by decide⟩
  obtain ⟨s, run, alive⟩ := reached
  exact ⟨s, run, alive, (watermark_below_open_snapshots 0).1 _ _ run⟩

def reversed : IterationOrder Nat := ⟨List.reverse, List.reverse_perm⟩

theorem zero_snapshot_overtaken :
    ∃ s, Run TrackerStep ⟨.new 0, []⟩ [.openSnapshot, .publish 2, .openSnapshot, .gc reversed] s ∧
      s.opens = [3, 0] ∧ s.tracker.getSeqnoSafeToGc = 2 :=
  ⟨_, .cons _ _ ⟨trivial, rfl⟩ (.cons _ _ ⟨trivial, rfl⟩ (.cons _ _ ⟨trivial, rfl⟩ (.cons _ _ ⟨trivial, rfl⟩ (.nil _)))),
    by decide, by decide⟩

end OmryaKv.Snapshot
