import Crossref.Proofs.Usage.Walk

/-!
# Proofs — usages — visits in property delegates

A visit carries a flag that says whether the walk came through a property delegate.  What the walk
passes over without a visit is never a property delegate, so the flag tells the truth: it is set
exactly where one of the nodes between the visited one and the collected declaration is a delegate.

* `inDelegate_iff`: the flag of a visit is set exactly in a property delegate of what is collected.
-/

namespace Crossref.Usage
open Node

/-! ### The flag -/

/-- Some node between the two, the upper one among them, is a property delegate. -/
def DelegateBetween (n m : Node) : Prop :=
  ∃ d ∈ m.ancestors, d.kind = "property_delegate" ∧ Below n d

/-- Between a node and itself there is nothing. -/
theorem not_delegateBetween_self (n : Node) : ¬ DelegateBetween n n :=
  fun ⟨_, hd, _, hn⟩ => hn.notMem_ancestors hd

/-- On the way to what the walk goes on with only the upper node can be a delegate. -/
theorem delegateBetween_iff_of_mem_nextNodes {n m k : Node} (hm : m ∈ nextNodes n)
    (hk : Below m k) :
    DelegateBetween n k ↔ n.kind = "property_delegate" ∨ DelegateBetween m k := by
  have hnm := belowChild_of_mem_nextNodes hm
  constructor
  · rintro ⟨d, hd, hdk, hnd⟩
    rcases hk.between_or_above hd with ⟨hmd, -⟩ | hd'
    · exact .inr ⟨d, hd, hdk, hmd⟩
    · rcases (passedOver_of_mem_nextNodes hm).mem_ancestors_cases hd' with hd' | rfl | hd'
      · -- what is passed over is no delegate
        rw [hdk] at hd'
        exact absurd hd' (by decide)
      · exact .inl hdk
      · exact absurd hd' hnd.notMem_ancestors
  · rintro (hn | ⟨d, hd, hdk, hmd⟩)
    · obtain ⟨c, hc, hcm⟩ := hnm
      exact ⟨n, mem_ancestors_of_below hc (hcm.trans hk), hn, .refl⟩
    · exact ⟨d, hd, hdk, hnm.below.trans hmd⟩

/-- Induction over the walk: every visit lies below its beginning, and its flag is set when it was
set there or when a delegate stands between. -/
theorem inDelegate_iff_of_mem_visitsWith :
    ∀ {fuel : Nat} {w v : Visit}, v ∈ visitsWith fuel w →
      Below w.node v.node ∧
        (v.inDelegate = true ↔ w.inDelegate = true ∨ DelegateBetween w.node v.node)
  | 0, w, v, h => by
      obtain rfl := List.mem_singleton.1 h
      exact ⟨.refl, by simp [not_delegateBetween_self]⟩
  | fuel + 1, w, v, h => by
      rcases List.mem_cons.1 h with rfl | h
      · exact ⟨.refl, by simp [not_delegateBetween_self]⟩
      · obtain ⟨m, hm, h⟩ := List.mem_flatMap.1 h
        obtain ⟨hbelow, hflag⟩ := inDelegate_iff_of_mem_visitsWith h
        refine ⟨(belowChild_of_mem_nextNodes hm).below.trans hbelow, ?_⟩
        rw [hflag, delegateBetween_iff_of_mem_nextNodes hm hbelow]
        simp [or_assoc]

/-- The node is a property delegate of what is collected, or stands in one. -/
def UnderDelegate (n m : Node) : Prop :=
  ∃ top ∈ itineraryTops n, ∃ d, Below top d ∧ d.kind = "property_delegate" ∧ Below d m

theorem exists_top_of_mem_itinerary {n : Node} {v : Visit} (h : v ∈ itinerary n) :
    ∃ top ∈ itineraryTops n, Below top v.node := by
  obtain ⟨top, htop, hv⟩ := List.mem_flatMap.1 h
  exact ⟨top, htop, (inDelegate_iff_of_mem_visitsWith hv).1⟩

theorem length_trail_of_mem_itineraryTops {n top : Node} (h : top ∈ itineraryTops n) :
    top.trail.length = n.trail.length := by
  rcases mem_itineraryTops h with rfl | h
  · rfl
  · exact length_trail_of_mem_following h

/-- **The flag of a visit is set exactly in a property delegate** of what is collected; at the
delegate itself it is not set yet. -/
theorem inDelegate_iff {n : Node} {v : Visit} (hv : v ∈ itinerary n)
    (hk : v.node.kind ≠ "property_delegate") :
    v.inDelegate = true ↔ UnderDelegate n v.node := by
  obtain ⟨top, htop, hv⟩ := List.mem_flatMap.1 hv
  obtain ⟨hbelow, hflag⟩ := inDelegate_iff_of_mem_visitsWith hv
  rw [hflag]
  constructor
  · rintro (h | ⟨d, hd, hdk, htd⟩)
    · cases h
    · rcases hbelow.between_or_above hd with ⟨-, hdv⟩ | hd'
      · exact ⟨top, htop, d, htd, hdk, hdv⟩
      · exact absurd hd' htd.notMem_ancestors
  · rintro ⟨other, hother, d, hod, hdk, hdv⟩
    -- both beginnings stand side by side above the visited node
    obtain rfl : other = top := (hod.trans hdv).eq_of_length_trail_eq hbelow
      ((length_trail_of_mem_itineraryTops hother).trans
        (length_trail_of_mem_itineraryTops htop).symm)
    rcases hdv.eq_or_mem_ancestors with rfl | hd
    · exact absurd hdk hk
    · exact .inr ⟨d, hd, hdk, hod⟩

end Crossref.Usage
