import EntityWeaver.Proofs.Merge.Stages
import EntityWeaver.Proofs.Sorting
import Mathlib.Data.List.Nodup

/-! The contributions of a selection, and the order in which they are laid out.

    The contributions are the survivors and the setter, by rank. A membership signature puts those
    ahead that bypass the group check, and leaves the order alone within both parts:

        by rank     a  b* c  d*        laid out     b* d* │ a  c

    So each of two bodies precedes the other or is preceded by it: by the check, or else by rank. -/

namespace EntityWeaver

namespace Contribution

/-- The candidate whose body a contribution is. -/
def candidate? : Contribution → Option Candidate
  | .body c => some c
  | .setter _ => none

end Contribution

/-- The body of one candidate is laid out ahead of that of another. -/
def Precedes (signature : Signature) (a b : Candidate) : Prop :=
  if signature.membership?.isSome ∧ a.method.bypassesGroupCheck ≠ b.method.bypassesGroupCheck then
    a.method.bypassesGroupCheck = true
  else a.rank.Before b.rank

namespace Selection

variable {s : Selection} {signature : Signature}

/-- The contributions in the order in which they are laid out. -/
def laidOut (s : Selection) (signature : Signature) : List Contribution :=
  s.bypassing signature ++ s.checked signature

/-- The candidates in the order in which their bodies are laid out. -/
def ordered (s : Selection) (signature : Signature) : List Candidate :=
  (s.laidOut signature).filterMap (·.candidate?)

theorem contributions_perm (s : Selection) :
    s.contributions.Perm (s.survivors.map .body ++ s.setter.toList.map .setter) := by
  unfold contributions
  cases s.setter with
  | none => simp
  | some f => exact List.mergeSort_perm _ _

theorem laidOut_perm (s : Selection) (signature : Signature) :
    (s.laidOut signature).Perm s.contributions := by
  unfold laidOut bypassing checked
  split
  · exact List.filter_append_perm _ _
  · rfl

/-- The bodies among the contributions are the survivors. -/
theorem candidates_perm_survivors (s : Selection) :
    (s.contributions.filterMap (·.candidate?)).Perm s.survivors := by
  have h := s.contributions_perm.filterMap (·.candidate?)
  simpa [List.filterMap_append, List.filterMap_map, Function.comp_def, Contribution.candidate?]
    using h

theorem ordered_perm_survivors (s : Selection) (signature : Signature) :
    (s.ordered signature).Perm s.survivors :=
  ((s.laidOut_perm signature).filterMap _).trans s.candidates_perm_survivors

/-- Survivors that came by rank are among contributions by rank. -/
theorem contributions_pairwise (hsorted : s.survivors.Pairwise fun a b => a.le b) :
    s.contributions.Pairwise fun u v => u.le v := by
  unfold contributions
  cases s.setter with
  | none => exact List.pairwise_map.2 hsorted
  | some f => exact (Ordered.ranks.on Contribution.rank).pairwise_mergeSort _

/-- The bodies by rank: each is ahead of those behind it. -/
theorem candidates_pairwise (hsorted : s.survivors.Pairwise fun a b => a.le b)
    (hnames : (s.survivors.map (·.component.name)).Nodup) :
    (s.contributions.filterMap (·.candidate?)).Pairwise fun a b => a.rank.Before b.rank := by
  have hle : (s.contributions.filterMap (·.candidate?)).Pairwise fun a b => a.le b := by
    refine List.pairwise_filterMap.2 ((contributions_pairwise hsorted).imp ?_)
    rintro (c | f) (d | g) hle a ha b hb <;> cases ha <;> cases hb
    exact hle
  have hne := List.pairwise_map.1
    ((s.candidates_perm_survivors.map (·.component.name)).nodup_iff.2 hnames)
  exact hle.imp₂ (fun a b hab hn => Rank.before_of_le hab (mt (congrArg Rank.component) hn)) hne

/-- The bodies among the contributions of a kind are those of that kind among the bodies. -/
theorem filterMap_candidate?_filter {p : Contribution → Bool} {q : Candidate → Bool}
    (h : ∀ c, p (.body c) = q c) (us : List Contribution) :
    (us.filter p).filterMap (·.candidate?) = (us.filterMap (·.candidate?)).filter q := by
  rw [List.filterMap_filter, List.filter_filterMap]
  congr 1
  funext u
  cases u with
  | body c => simp [Contribution.candidate?, h, Option.filter]
  | setter f => simp [Contribution.candidate?]

/-- Bodies that agree about the group check precede each other by rank. -/
theorem pairwise_precedes_of_agree (bypass : Bool) {cs : List Candidate}
    (hrank : cs.Pairwise fun a b => a.rank.Before b.rank)
    (hagree : ∀ c ∈ cs, c.method.bypassesGroupCheck = bypass) :
    cs.Pairwise (Precedes signature) := by
  refine hrank.imp_of_mem fun {a b} ha hb hab => ?_
  rw [Precedes, if_neg fun h => h.2 ((hagree a ha).trans (hagree b hb).symm)]
  exact hab

/-- Survivors by rank are laid out with each body ahead of those that it precedes. -/
theorem ordered_pairwise (hsorted : s.survivors.Pairwise fun a b => a.le b)
    (hnames : (s.survivors.map (·.component.name)).Nodup) :
    (s.ordered signature).Pairwise (Precedes signature) := by
  have hrank := candidates_pairwise hsorted hnames
  unfold ordered laidOut bypassing checked
  by_cases hm : signature.membership?.isSome
  · rw [if_pos hm, if_pos hm, List.filterMap_append,
      filterMap_candidate?_filter (q := (·.method.bypassesGroupCheck)) fun _ => rfl,
      filterMap_candidate?_filter (q := (!·.method.bypassesGroupCheck)) fun _ => rfl]
    refine List.pairwise_append.2 ⟨pairwise_precedes_of_agree true (hrank.filter _) fun c hc => ?_,
      pairwise_precedes_of_agree false (hrank.filter _) fun c hc => ?_, fun a ha b hb => ?_⟩
    · exact (List.mem_filter.1 hc).2
    · simpa using (List.mem_filter.1 hc).2
    · have ha' := (List.mem_filter.1 ha).2
      have hb' := (List.mem_filter.1 hb).2
      rw [Precedes, if_pos ⟨hm, by simp_all⟩]
      exact ha'
  · rw [if_neg hm, if_neg hm, List.nil_append]
    refine hrank.imp fun {a b} hab => ?_
    rw [Precedes, if_neg fun h => hm h.1]
    exact hab

end Selection

end EntityWeaver
