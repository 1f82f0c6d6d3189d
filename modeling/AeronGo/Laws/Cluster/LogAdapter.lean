import AeronGo.Cluster.LogAdapter
import AeronGo.Laws.FragmentAssembler
import AeronGo.Machine.Alike

/-!
# Three ways to reassemble

On the fragments of one session the two assemblers and the log adapter are the same machine: the adapter's builder is
the one that the session has in the assemblers' map (`Matches`). They call their delegates alike on every sequence of
fragments, whatever the flags and lengths are, and stop alike. Fragments of several sessions are not compared, as the
adapter has one builder for all.
-/

namespace AeronGo.Reassembly

open Machine Util Atomic LogBuffer
open Image (ControlledPollAction)

variable {δ : Type}

/-- A fragment as a handler gets it, and the subscriber position that a controlled handler could see. -/
structure Fragment where
  buffer : Buffer
  offset : Int
  length : Int
  headerOffset : Int
  subscriberPosition : Int

/-- A delegate with an answer. -/
def controlled (delegate : FragmentAssembler.Delegate δ)
    (answer : δ → Int → Buffer → Int → Int → Header → ControlledPollAction) : ControlledFragmentAssembler.Delegate δ :=
  fun d position buffer offset length header => do
    let d' ← delegate d buffer offset length header
    return (answer d position buffer offset length header, d')

def runAssembler (delegate : FragmentAssembler.Delegate δ) (fragments : List Fragment) (d : δ) :
    Except Stop (Builders × δ) :=
  fragments.foldlM (fun s x => FragmentAssembler.onFragment delegate s x.buffer x.offset x.length x.headerOffset)
    (fun _ => none, d)

def runControlled (delegate : ControlledFragmentAssembler.Delegate δ) (fragments : List Fragment) (d : δ) :
    Except Stop (Builders × δ) :=
  fragments.foldlM (fun s x => do
    let (_, s) ← ControlledFragmentAssembler.onFragment delegate s x.subscriberPosition x.buffer x.offset x.length x.headerOffset
    return s) (fun _ => none, d)

def runAdapter (onMessage : FragmentAssembler.Delegate δ) (fragments : List Fragment) (d : δ) :
    Except Stop (Option (List UInt8) × δ) :=
  fragments.foldlM (fun s x => BoundedLogAdapter.onFragment onMessage s x.buffer x.offset x.length x.headerOffset) (none, d)

/-- The adapter has the session's builder, and the delegates have been called alike. -/
def Matches (sessionId : Int) (s : Builders × δ) (t : Option (List UInt8) × δ) : Prop := s.1 sessionId = t.1 ∧ s.2 = t.2

theorem set_self (builders : Builders) (sessionId : Int) (builder : List UInt8) :
    builders.set sessionId builder sessionId = some builder := if_pos rfl

section Step

variable {sessionId : Int} {x : Fragment} (hsession : getSessionId x.buffer x.headerOffset = .ok sessionId)

include hsession

/-- One fragment. -/
theorem assembler_alike (delegate : FragmentAssembler.Delegate δ) (s : Builders × δ) (t : Option (List UInt8) × δ)
    (h : Matches sessionId s t) :
    Alike (Matches sessionId) (FragmentAssembler.onFragment delegate s x.buffer x.offset x.length x.headerOffset)
      (BoundedLogAdapter.onFragment delegate t x.buffer x.offset x.length x.headerOffset) := by
  obtain ⟨builders, d⟩ := s
  obtain ⟨builder, d'⟩ := t
  obtain ⟨hbuilder, rfl⟩ := h
  dsimp only at hbuilder
  rw [FragmentAssembler.onFragment, BoundedLogAdapter.onFragment]
  refine .bind_same fun flags => ?_
  by_cases hwhole : flags &&& unfragmented = unfragmented
  · rw [if_pos hwhole, if_pos hwhole]
    exact .bind_same fun d' => .ok ⟨hbuilder, rfl⟩
  rw [if_neg hwhole, if_neg hwhole, hsession, ok_bind]
  by_cases hbegin : flags &&& beginFrag = beginFrag
  · rw [if_pos hbegin, if_pos hbegin]
    exact .bind_same fun bytes => .ok ⟨set_self _ _ _, rfl⟩
  rw [if_neg hbegin, if_neg hbegin, hbuilder]
  cases builder with
  | none => exact .ok ⟨hbuilder, rfl⟩
  | some builder =>
    dsimp only
    by_cases hempty : builder.length = 0
    · rw [if_pos hempty, if_pos hempty]
      exact .ok ⟨hbuilder, rfl⟩
    rw [if_neg hempty, if_neg hempty]
    refine .bind_same fun bytes => ?_
    by_cases hend : flags &&& endFrag = endFrag
    · rw [if_pos hend, if_pos hend]
      exact .bind_same fun d' => .ok ⟨set_self _ _ _, rfl⟩
    · rw [if_neg hend, if_neg hend]
      exact .ok ⟨set_self _ _ _, rfl⟩

/-- One fragment, for the controlled assembler; it keeps a builder only where the delegate aborts. -/
theorem controlled_alike (delegate : FragmentAssembler.Delegate δ)
    {answer : δ → Int → Buffer → Int → Int → Header → ControlledPollAction}
    (hanswer : ∀ d position buffer offset length header, answer d position buffer offset length header ≠ .abort)
    (s : Builders × δ) (t : Option (List UInt8) × δ) (h : Matches sessionId s t) :
    Alike (Matches sessionId)
      (ControlledFragmentAssembler.onFragment (controlled delegate answer) s x.subscriberPosition x.buffer x.offset x.length
        x.headerOffset >>= fun r => pure r.2)
      (BoundedLogAdapter.onFragment delegate t x.buffer x.offset x.length x.headerOffset) := by
  obtain ⟨builders, d⟩ := s
  obtain ⟨builder, d'⟩ := t
  obtain ⟨hbuilder, rfl⟩ := h
  dsimp only at hbuilder
  rw [ControlledFragmentAssembler.onFragment, BoundedLogAdapter.onFragment, bind_assoc]
  refine .bind_same fun flags => ?_
  by_cases hwhole : flags &&& unfragmented = unfragmented
  · rw [if_pos hwhole, if_pos hwhole, controlled, bind_assoc, bind_assoc]
    exact .bind_same fun d' => .ok ⟨hbuilder, rfl⟩
  rw [if_neg hwhole, if_neg hwhole, hsession, ok_bind]
  by_cases hbegin : flags &&& beginFrag = beginFrag
  · rw [if_pos hbegin, if_pos hbegin, bind_assoc]
    exact .bind_same fun bytes => .ok ⟨set_self _ _ _, rfl⟩
  rw [if_neg hbegin, if_neg hbegin, hbuilder]
  cases builder with
  | none => exact .ok ⟨hbuilder, rfl⟩
  | some builder =>
    dsimp only
    by_cases hempty : builder.length = 0
    · rw [if_pos hempty, if_pos hempty]
      exact .ok ⟨hbuilder, rfl⟩
    rw [if_neg hempty, if_neg hempty, bind_assoc]
    refine .bind_same fun bytes => ?_
    by_cases hend : flags &&& endFrag = endFrag
    · rw [if_pos hend, if_pos hend, controlled, bind_assoc, bind_assoc]
      refine .bind_same fun d' => ?_
      rw [pure_bind]
      dsimp only
      rw [if_neg (hanswer _ _ _ _ _ _)]
      exact .ok ⟨set_self _ _ _, rfl⟩
    · rw [if_neg hend, if_neg hend]
      exact .ok ⟨set_self _ _ _, rfl⟩

end Step

/-- **The three are interchangeable** on the fragments of a session: whatever the delegate is, its calls leave it in the same
state, and if one of the three is stopped then all are, at the same fragment and in the same way. The answers of the
controlled delegate are arbitrary but for aborting. -/
theorem reassemblers_interchangeable (delegate : FragmentAssembler.Delegate δ)
    (answer : δ → Int → Buffer → Int → Int → Header → ControlledPollAction)
    (hanswer : ∀ d position buffer offset length header, answer d position buffer offset length header ≠ .abort)
    {sessionId : Int} {fragments : List Fragment}
    (hsession : ∀ x ∈ fragments, getSessionId x.buffer x.headerOffset = .ok sessionId) (d : δ) :
    (runAssembler delegate fragments d).map Prod.snd = (runAdapter delegate fragments d).map Prod.snd ∧
      (runControlled (controlled delegate answer) fragments d).map Prod.snd =
        (runAdapter delegate fragments d).map Prod.snd := by
  have hfresh : Matches sessionId (fun _ => none, d) (none, d) := ⟨rfl, rfl⟩
  constructor
  · refine Alike.map_eq (Alike.foldlM (fun x hx => ?_) hfresh) fun s t h => h.2
    exact assembler_alike (hsession x hx) delegate
  · refine Alike.map_eq (Alike.foldlM (fun x hx => ?_) hfresh) fun s t h => h.2
    exact controlled_alike (hsession x hx) delegate hanswer

/-- A frame with its flags and one byte. -/
def byteFragment (flags byte : UInt8) : Fragment where
  buffer := ⟨fun i => if i = 5 then flags else if i = 32 then byte else 0, 64⟩
  offset := 32
  length := 1
  headerOffset := 0
  subscriberPosition := 0

theorem reassemblers_interchangeable_bytes :
    (runAssembler record [byteFragment beginFrag 1, byteFragment endFrag 2] []).map Prod.snd = .ok [[1, 2]] ∧
    (runControlled (controlled record fun _ _ _ _ _ _ => .commit) [byteFragment beginFrag 1, byteFragment endFrag 2] []).map
      Prod.snd = .ok [[1, 2]] := by
  have hsession : ∀ x ∈ [byteFragment beginFrag 1, byteFragment endFrag 2], getSessionId x.buffer x.headerOffset = .ok 0 := by
    rw [List.forall_mem_cons, List.forall_mem_singleton]
    exact ⟨by decide, by decide⟩
  have hadapter : (runAdapter record [byteFragment beginFrag 1, byteFragment endFrag 2] []).map Prod.snd = .ok [[1, 2]] := by
    decide +kernel
  obtain ⟨hassembler, hcontrolled⟩ := reassemblers_interchangeable record (fun _ _ _ _ _ _ => .commit)
    (fun _ _ _ _ _ _ => by decide) hsession []
  exact ⟨hassembler.trans hadapter, hcontrolled.trans hadapter⟩

end AeronGo.Reassembly
