import AeronGo.Subscription
import AeronGo.Laws.Atomic.Buffer
import AeronGo.Laws.Image.Poll
import AeronGo.Laws.LogBuffer.Descriptor
import Mathlib.Data.List.Rotate

/-!
# Laws of subscriptions

A call visits images one after the other, each with what is left of the limit (`Visits`), in the order of
the list rotated to where the round-robin index points. The index goes over the list and once past its
end, so `n + 1` calls in a row start at every one of `n` images.
-/

namespace AeronGo

open Machine Atomic LogBuffer

/-! ## One image -/

section Image

variable {σ : Type}

/-- The frames of a term: no more fragments than the limit. -/
theorem LogBuffer.readFrames_count (buf : Buffer) (handler : FragmentHandler σ) (fragmentLimit offsetLimit : Int)
    (fuel : Nat) : ∀ (offset read : Int) (st : σ) (result : Int × Int × σ), read ≤ fragmentLimit →
      readFrames buf handler fragmentLimit offsetLimit fuel offset read st = .ok result →
      read ≤ result.2.1 ∧ result.2.1 ≤ fragmentLimit := by
  induction fuel with
  | zero =>
    intro offset read st result _ h
    cases h
  | succ fuel ih =>
    intro offset read st result hread h
    rw [readFrames] at h
    split at h
    next hgo =>
      obtain ⟨frameLength, _, h⟩ := ok_of_bind h
      split at h
      · cases h
        exact ⟨Int.le_refl _, hread⟩
      obtain ⟨isPadding, _, h⟩ := ok_of_bind h
      split at h
      · exact ih _ _ _ _ hread h
      · obtain ⟨st', _, h⟩ := ok_of_bind h
        have hnext := ih _ _ _ _ (show read + 1 ≤ fragmentLimit by omega) h
        exact ⟨by omega, hnext.2⟩
    next =>
      cases h
      exact ⟨Int.le_refl _, hread⟩

theorem Image.poll_count (params : LogParams) (termBuffers : Int → Buffer) (image : Image) (handler : FragmentHandler σ)
    {fragmentLimit : Int} (hlimit : 0 ≤ fragmentLimit) (st : σ) {result : Int × Image × σ}
    (h : image.poll params termBuffers handler fragmentLimit st = .ok result) :
    0 ≤ result.1 ∧ result.1 ≤ fragmentLimit := by
  rw [Image.poll] at h
  split at h
  · cases h
    exact ⟨Int.le_refl 0, hlimit⟩
  · obtain ⟨index, _, h⟩ := ok_of_bind h
    obtain ⟨frames, hframes, h⟩ := ok_of_bind h
    cases h
    exact readFrames_count _ _ _ _ _ _ _ _ _ hlimit hframes

/-- The loop of `ControlledPoll`: an aborted fragment is not counted. -/
theorem Image.controlledFrames_count (buf : Buffer) (handler : Image.ControlledFragmentHandler σ) (fragmentLimit : Int)
    (fuel : Nat) : ∀ (l l' : Image.ControlledLoop σ), l.fragmentsRead ≤ fragmentLimit →
      Image.controlledFrames buf handler fragmentLimit fuel l = .ok l' →
      l.fragmentsRead ≤ l'.fragmentsRead ∧ l'.fragmentsRead ≤ fragmentLimit := by
  induction fuel with
  | zero =>
    intro l l' _ h
    cases h
  | succ fuel ih =>
    intro l l' hread h
    rw [Image.controlledFrames] at h
    split at h
    next hgo =>
      obtain ⟨length, _, h⟩ := ok_of_bind h
      split at h
      · cases h
        exact ⟨Int.le_refl _, hread⟩
      obtain ⟨isPadding, _, h⟩ := ok_of_bind h
      split at h
      · have hnext := fun hread => ih _ l' hread h
        exact hnext hread
      obtain ⟨⟨action, st'⟩, _, h⟩ := ok_of_bind h
      have hless := hgo.1
      cases action with
      | abort | «break» =>
        cases h
        simp only
        omega
      | commit | «continue» =>
        have hnext := ih _ _ (show l.fragmentsRead + 1 ≤ fragmentLimit by omega) h
        simp only at hnext
        omega
    next =>
      cases h
      exact ⟨Int.le_refl _, hread⟩

theorem Image.controlledPoll_count (params : LogParams) (termBuffers : Int → Buffer) (image : Image)
    (handler : Image.ControlledFragmentHandler σ) {fragmentLimit : Int} (hlimit : 0 ≤ fragmentLimit) (st : σ)
    {result : Int × Image × σ} (h : image.controlledPoll params termBuffers handler fragmentLimit st = .ok result) :
    0 ≤ result.1 ∧ result.1 ≤ fragmentLimit := by
  rw [Image.controlledPoll] at h
  split at h
  · cases h
    exact ⟨Int.le_refl 0, hlimit⟩
  · obtain ⟨index, _, h⟩ := ok_of_bind h
    obtain ⟨l, hframes, h⟩ := ok_of_bind h
    cases h
    exact Image.controlledFrames_count _ _ _ _ _ _ hlimit hframes

end Image

variable {i n : Nat} {sub : Subscription}

namespace Subscription

variable {σ : Type}

/-! ## Visits -/

/-- Images are polled one after the other, each with what is left of the limit, while something is: their indices, and
the fragments that each one read. -/
inductive Visits (pollImage : PollImage σ) : Int → List LoggedImage → σ → List (Nat × Int) → List LoggedImage → σ → Prop
  | nil {limit : Int} {img : List LoggedImage} {st : σ} : Visits pollImage limit img st [] img st
  | cons {limit k : Int} {img img' : List LoggedImage} {st st₁ st' : σ} {i : Nat} {x x' : LoggedImage}
      {rest : List (Nat × Int)} :
      0 < limit → img[i]? = some x → pollImage x limit st = .ok (k, x', st₁) →
      Visits pollImage (limit - k) (img.set i x') st₁ rest img' st' →
      Visits pollImage limit img st ((i, k) :: rest) img' st'

/-- The fragments of visits. -/
def fragmentsOf (visited : List (Nat × Int)) : Int := (visited.map Prod.snd).sum

@[simp] theorem fragmentsOf_nil : fragmentsOf [] = 0 := rfl

@[simp] theorem fragmentsOf_cons (i : Nat) (k : Int) (rest : List (Nat × Int)) :
    fragmentsOf ((i, k) :: rest) = k + fragmentsOf rest := by
  simp only [fragmentsOf, List.map_cons, List.sum_cons]

theorem fragmentsOf_append (xs ys : List (Nat × Int)) : fragmentsOf (xs ++ ys) = fragmentsOf xs + fragmentsOf ys := by
  simp only [fragmentsOf, List.map_append, List.sum_append]

section Visits

variable {pollImage : PollImage σ} {limit : Int} {img img₁ img' : List LoggedImage} {st st₁ st' : σ}
  {xs ys : List (Nat × Int)}

theorem Visits.append (h : Visits pollImage limit img st xs img₁ st₁)
    (h' : Visits pollImage (limit - fragmentsOf xs) img₁ st₁ ys img' st') :
    Visits pollImage limit img st (xs ++ ys) img' st' := by
  induction h with
  | nil =>
    rw [fragmentsOf_nil, Int.sub_zero] at h'
    exact h'
  | cons hlimit hx hpoll _ ih =>
    refine .cons hlimit hx hpoll (ih ?_)
    rw [fragmentsOf_cons] at h'
    rwa [Int.sub_sub]

theorem Visits.length_eq (h : Visits pollImage limit img st xs img' st') : img'.length = img.length := by
  induction h with
  | nil => rfl
  | cons _ _ _ _ ih => rw [ih, List.length_set]

/-- At the limit nothing is visited. -/
theorem Visits.eq_nil (h : Visits pollImage limit img st xs img' st') (hlimit : limit ≤ 0) : xs = [] := by
  cases h with
  | nil => rfl
  | cons hpos => exact absurd hpos (Int.not_lt.mpr hlimit)

/-- An image that keeps within its limit. -/
def Bounded (pollImage : PollImage σ) : Prop :=
  ∀ x limit st k x' st', 0 < limit → pollImage x limit st = .ok (k, x', st') → 0 ≤ k ∧ k ≤ limit

theorem Visits.bounded (hbounded : Bounded pollImage) (h : Visits pollImage limit img st xs img' st')
    (hlimit : 0 ≤ limit) : fragmentsOf xs ≤ limit := by
  induction h with
  | nil => exact hlimit
  | cons hpos _ hpoll _ ih =>
    obtain ⟨_, hle⟩ := hbounded _ _ _ _ _ _ hpos hpoll
    have hrest := ih (by omega)
    rw [fragmentsOf_cons]
    omega

/-- An image stays the same one. -/
def Keeps (pollImage : PollImage σ) : Prop :=
  ∀ x limit st k x' st', pollImage x limit st = .ok (k, x', st') → x'.correlationID = x.correlationID

theorem Visits.keeps (hkeeps : Keeps pollImage) (h : Visits pollImage limit img st xs img' st') :
    img'.map LoggedImage.correlationID = img.map LoggedImage.correlationID := by
  induction h with
  | nil => rfl
  | @cons _ _ img _ _ _ _ i x x' _ _ hx hpoll _ ih =>
    rw [ih]
    apply List.ext_getElem?
    intro j
    rw [List.getElem?_map, List.getElem?_map, List.getElem?_set]
    by_cases hij : i = j
    · subst hij
      have hlt := (List.getElem?_eq_some_iff.mp hx).1
      rw [if_pos rfl, if_pos hlt, hx, Option.map_some, Option.map_some, hkeeps _ _ _ _ _ _ hpoll]
    · rw [if_neg hij]

end Visits

/-! ## A loop -/

section Loop

variable (pollImage : PollImage σ) (order : List Nat) (limit read : Int) (img : List LoggedImage) (st : σ)

/-- What polling images in an order comes to: it visits the first ones of them, and all of them unless the limit is
reached; or polling one of them stops it. -/
inductive Outcome : Except Stop (Int × List LoggedImage × σ) → Prop
  | returned {img' : List LoggedImage} {st' : σ} (visited : List (Nat × Int)) :
      Visits pollImage (limit - read) img st visited img' st' → visited.map Prod.fst <+: order →
      (visited.map Prod.fst = order ∨ limit ≤ read + fragmentsOf visited) →
      Outcome (.ok (read + fragmentsOf visited, img', st'))
  | stopped {img' : List LoggedImage} {st' : σ} {i : Nat} {x : LoggedImage} {stop : Stop} (visited : List (Nat × Int)) :
      Visits pollImage (limit - read) img st visited img' st' → visited.map Prod.fst ++ [i] <+: order →
      0 < limit - read - fragmentsOf visited → img'[i]? = some x →
      pollImage x (limit - read - fragmentsOf visited) st' = .error stop → Outcome (.error stop)

variable {pollImage order limit read img st}

/-- One image before an outcome. -/
theorem Outcome.cons {result : Except Stop (Int × List LoggedImage × σ)} {k : Int} {x x' : LoggedImage} {st₁ : σ}
    (hpos : read < limit) (hx : img[i]? = some x) (hpoll : pollImage x (limit - read) st = .ok (k, x', st₁))
    (h : Outcome pollImage order limit (read + k) (img.set i x') st₁ result) :
    Outcome pollImage (i :: order) limit read img st result := by
  have hvisit : ∀ {visited img' st'}, Visits pollImage (limit - (read + k)) (img.set i x') st₁ visited img' st' →
      Visits pollImage (limit - read) img st ((i, k) :: visited) img' st' := by
    intro visited img' st' hvisits
    refine .cons (Int.sub_pos_of_lt hpos) hx hpoll ?_
    rwa [Int.sub_sub]
  cases h with
  | @returned img' st' visited hvisits hfront hwhole =>
    have hsum : read + k + fragmentsOf visited = read + fragmentsOf ((i, k) :: visited) := by
      rw [fragmentsOf_cons, Int.add_assoc]
    rw [hsum] at hwhole ⊢
    refine .returned ((i, k) :: visited) (hvisit hvisits) ?_ (hwhole.imp_left (congrArg (i :: ·)))
    exact List.cons_prefix_cons.mpr ⟨rfl, hfront⟩
  | stopped visited hvisits hfront hleft hi hstop =>
    have hsum : limit - (read + k) - fragmentsOf visited = limit - read - fragmentsOf ((i, k) :: visited) := by
      rw [fragmentsOf_cons]
      omega
    rw [hsum] at hleft hstop
    exact .stopped ((i, k) :: visited) (hvisit hvisits) (List.cons_prefix_cons.mpr ⟨rfl, hfront⟩) hleft hi hstop

/-- **A loop over the images**, by induction on how many are left. -/
theorem pollLoop_outcome (count : Nat) : ∀ (i : Nat) (read : Int) (img : List LoggedImage) (st : σ),
    i + count ≤ img.length →
    Outcome pollImage (List.range' i count) limit read img st (pollLoop pollImage limit count i read img st) := by
  induction count with
  | zero =>
    intro i read img st _
    have hnone : Outcome pollImage [] limit read img st (.ok (read + fragmentsOf [], img, st)) :=
      .returned [] .nil List.prefix_rfl (.inl rfl)
    rwa [fragmentsOf_nil, Int.add_zero] at hnone
  | succ count ih =>
    intro i read img st hin
    rw [pollLoop, List.range'_succ]
    by_cases hgo : read < limit
    · obtain ⟨x, hx⟩ : ∃ x, img[i]? = some x := ⟨_, List.getElem?_eq_getElem (by omega)⟩
      rw [if_pos hgo, hx]
      dsimp only
      cases hpoll : pollImage x (limit - read) st with
      | error stop =>
        have hleft : limit - read - fragmentsOf [] = limit - read := by rw [fragmentsOf_nil, Int.sub_zero]
        refine .stopped [] .nil (List.cons_prefix_cons.mpr ⟨rfl, List.nil_prefix⟩) ?_ hx ?_
        · rw [hleft]
          exact Int.sub_pos_of_lt hgo
        · rw [hleft]
          exact hpoll
      | ok polled =>
        obtain ⟨k, x', st₁⟩ := polled
        exact Outcome.cons hgo hx hpoll (ih (i + 1) (read + k) (img.set i x') st₁ (by rw [List.length_set]; omega))
    · rw [if_neg hgo]
      have hnone : Outcome pollImage (i :: List.range' (i + 1) count) limit read img st
          (.ok (read + fragmentsOf [], img, st)) := by
        refine .returned [] .nil List.nil_prefix (.inr ?_)
        rw [fragmentsOf_nil, Int.add_zero]
        exact Int.not_lt.mp hgo
      rwa [fragmentsOf_nil, Int.add_zero] at hnone

/-- Two loops in a row. -/
theorem Outcome.bind {order' : List Nat} {result : Except Stop (Int × List LoggedImage × σ)}
    {next : Int × List LoggedImage × σ → Except Stop (Int × List LoggedImage × σ)}
    (h : Outcome pollImage order limit read img st result)
    (hnext : ∀ read₁ img₁ st₁, img₁.length = img.length → Outcome pollImage order' limit read₁ img₁ st₁ (next (read₁, img₁, st₁))) :
    Outcome pollImage (order ++ order') limit read img st (result >>= next) := by
  cases h with
  | stopped visited hvisits hfront hleft hi hstop =>
    exact .stopped visited hvisits (hfront.trans (List.prefix_append _ _)) hleft hi hstop
  | @returned img₁ st₁ visited hvisits hfront hwhole =>
    have hrest := hnext (read + fragmentsOf visited) img₁ st₁ hvisits.length_eq
    -- behind the first part, unless the limit was reached there and nothing more is visited
    have hbehind : ∀ visited', (visited' = [] ∨ read + fragmentsOf visited < limit) → visited' <+: order' →
        visited.map Prod.fst ++ visited' <+: order ++ order' := by
      intro visited' hempty hfront'
      rcases hwhole with hwhole | hreached
      · rw [hwhole]
        exact (List.prefix_append_right_inj order).mpr hfront'
      · rw [hempty.resolve_right (Int.not_lt.mpr hreached), List.append_nil]
        exact hfront.trans (List.prefix_append _ _)
    show Outcome pollImage (order ++ order') limit read img st (next (read + fragmentsOf visited, img₁, st₁))
    generalize hcall : next (read + fragmentsOf visited, img₁, st₁) = answer at hrest
    have hlimit : ∀ {visited' img' st'}, Visits pollImage (limit - (read + fragmentsOf visited)) img₁ st₁ visited' img' st' →
        Visits pollImage (limit - read) img st (visited ++ visited') img' st' := by
      intro visited' img' st' hvisits'
      refine hvisits.append ?_
      rwa [Int.sub_sub]
    have hopen : ∀ {visited' img' st'},
        Visits pollImage (limit - (read + fragmentsOf visited)) img₁ st₁ visited' img' st' →
        visited'.map Prod.fst = [] ∨ read + fragmentsOf visited < limit := by
      intro visited' img' st' hvisits'
      by_cases hreached : limit ≤ read + fragmentsOf visited
      · exact .inl (by rw [hvisits'.eq_nil (by omega)]; rfl)
      · exact .inr (Int.not_le.mp hreached)
    cases hrest with
    | @returned img' st' visited' hvisits' hfront' hwhole' =>
      have hsum : read + fragmentsOf visited + fragmentsOf visited' = read + fragmentsOf (visited ++ visited') := by
        rw [fragmentsOf_append, Int.add_assoc]
      rw [hsum] at hwhole' ⊢
      refine .returned (visited ++ visited') (hlimit hvisits') ?_ ?_
      · rw [List.map_append]
        exact hbehind _ (hopen hvisits') hfront'
      · rcases hwhole with hwhole | hreached
        · rw [List.map_append, hwhole]
          exact hwhole'.imp_left (congrArg (order ++ ·))
        · refine .inr ?_
          rw [fragmentsOf_append, hvisits'.eq_nil (by omega), fragmentsOf_nil]
          omega
    | @stopped img' st' i x stop visited' hvisits' hfront' hleft hi hstop =>
      have hsum : limit - (read + fragmentsOf visited) - fragmentsOf visited' =
          limit - read - fragmentsOf (visited ++ visited') := by
        rw [fragmentsOf_append]
        omega
      have hgo : read + fragmentsOf visited < limit := by
        by_contra hreached
        rw [hvisits'.eq_nil (by omega), fragmentsOf_nil] at hleft
        omega
      rw [hsum] at hleft hstop
      refine .stopped (visited ++ visited') (hlimit hvisits') ?_ hleft hi hstop
      rw [List.map_append, List.append_assoc]
      exact hbehind _ (.inr hgo) hfront'

end Loop

/-! ## A call -/

/-- Where a call starts among `n` images. -/
def startingIndex (n index : Nat) : Nat := if n ≤ index then 0 else index

/-- The index after a call. -/
def nextIndex (n index : Nat) : Nat := if n ≤ index then 0 else index + 1

/-- The order in which a call visits them. -/
def turn (n index : Nat) : List Nat := (List.range n).rotate (startingIndex n index)

theorem startingIndex_lt (hn : 0 < n) (index : Nat) : startingIndex n index < n := by
  rw [startingIndex]
  split <;> omega

theorem turn_eq (hn : 0 < n) (index : Nat) :
    turn n index = List.range' (startingIndex n index) (n - startingIndex n index) ++
      List.range' 0 (startingIndex n index) := by
  have hle := Nat.le_of_lt (startingIndex_lt hn index)
  rw [turn, List.rotate_eq_drop_append_take (by rwa [List.length_range]), List.take_range, Nat.min_eq_left hle,
    List.range_eq_range', List.range_eq_range', List.drop_range', Nat.zero_add, Nat.mul_one]

theorem turn_nodup (n index : Nat) : (turn n index).Nodup := List.nodup_rotate.mpr List.nodup_range

theorem mem_turn {n index i : Nat} (h : i ∈ turn n index) : i < n := List.mem_range.mp (List.mem_rotate.mp h)

theorem head_turn (hn : 0 < n) (index : Nat) : (turn n index).head? = some (startingIndex n index) := by
  have hlt := startingIndex_lt hn index
  rw [turn_eq hn]
  generalize startingIndex n index = start at hlt
  obtain ⟨m, rfl⟩ := Nat.exists_eq_add_of_lt hlt
  rw [Nat.add_assoc, Nat.add_sub_cancel_left, List.range'_succ]
  rfl

/-- The subscription after a call. -/
def after (sub : Subscription) (img : List LoggedImage) : Subscription :=
  ⟨img, if sub.images = [] then sub.roundRobinIndex else nextIndex sub.images.length sub.roundRobinIndex⟩

theorem after_empty (h : sub.images = []) : sub.after sub.images = sub := by rw [after, if_pos h]

theorem after_index (h : sub.images ≠ []) (img : List LoggedImage) :
    (sub.after img).roundRobinIndex = nextIndex sub.images.length sub.roundRobinIndex := by rw [after, if_neg h]

/-- **A call**: it polls the images in turn, and the subscription is left with its next index. -/
theorem pollImages_outcome (pollImage : PollImage σ) (sub : Subscription) (limit : Int) (st : σ) :
    ∃ result, Outcome pollImage (turn sub.images.length sub.roundRobinIndex) limit 0 sub.images st result ∧
      pollImages pollImage sub limit st = result.map fun r => (r.1, sub.after r.2.1, r.2.2) := by
  by_cases hempty : sub.images = []
  · refine ⟨.ok (0 + fragmentsOf [], sub.images, st), .returned [] .nil List.nil_prefix (.inl ?_), ?_⟩
    · rw [hempty]
      rfl
    · rw [pollImages, if_neg (by rw [hempty]; exact Nat.lt_irrefl 0)]
      show Except.ok (0, sub, st) = .ok (0, sub.after sub.images, st)
      rw [after_empty hempty]
  · have hn : 0 < sub.images.length := List.length_pos_iff.mpr hempty
    have hlt := startingIndex_lt hn sub.roundRobinIndex
    have hloops : Outcome pollImage (turn sub.images.length sub.roundRobinIndex) limit 0 sub.images st
        (pollLoop pollImage limit (sub.images.length - startingIndex sub.images.length sub.roundRobinIndex)
            (startingIndex sub.images.length sub.roundRobinIndex) 0 sub.images st >>= fun r =>
          pollLoop pollImage limit (startingIndex sub.images.length sub.roundRobinIndex) 0 r.1 r.2.1 r.2.2) := by
      rw [turn_eq hn]
      refine Outcome.bind (pollLoop_outcome _ _ _ _ _ (by omega)) ?_
      intro read₁ img₁ st₁ hlength
      exact pollLoop_outcome _ _ _ _ _ (by omega)
    refine ⟨_, hloops, ?_⟩
    have hafter : ∀ img, sub.after img = ⟨img, nextIndex sub.images.length sub.roundRobinIndex⟩ := by
      intro img
      rw [after, if_neg hempty]
    rw [pollImages, if_pos hn]
    simp only [hafter, startingIndex, nextIndex]
    generalize pollLoop pollImage limit _ _ 0 sub.images st = first
    cases first with
    | error stop => rfl
    | ok r =>
      simp only [ok_bind]
      generalize pollLoop pollImage limit _ 0 r.1 r.2.1 r.2.2 = second
      cases second with
      | error stop => rfl
      | ok r => rfl

/-! ## Calls -/

/-- A call of a subscription. -/
inductive Call (σ : Type)
  | poll (handler : FragmentHandler σ) (fragmentLimit : Int)
  | controlledPoll (handler : Image.ControlledFragmentHandler σ) (fragmentLimit : Int)

namespace Call

def limit : Call σ → Int
  | poll _ fragmentLimit => fragmentLimit
  | controlledPoll _ fragmentLimit => fragmentLimit

/-- How the call polls one image. -/
def pollImage : Call σ → PollImage σ
  | poll handler _ => LoggedImage.poll handler
  | controlledPoll handler _ => LoggedImage.controlledPoll handler

def run : Call σ → Subscription → σ → Except Stop (Int × Subscription × σ)
  | poll handler fragmentLimit, sub, st => sub.poll handler fragmentLimit st
  | controlledPoll handler fragmentLimit, sub, st => sub.controlledPoll handler fragmentLimit st

theorem run_eq (call : Call σ) (sub : Subscription) (st : σ) :
    call.run sub st = pollImages call.pollImage sub call.limit st := by
  cases call <;> rfl

theorem pollImage_bounded (call : Call σ) : Bounded call.pollImage := by
  intro x limit st k x' st' hlimit h
  cases call with
  | poll handler _ =>
    obtain ⟨result, hpoll, h⟩ := ok_of_bind h
    cases h
    exact Image.poll_count _ _ _ _ (Int.le_of_lt hlimit) _ hpoll
  | controlledPoll handler _ =>
    obtain ⟨result, hpoll, h⟩ := ok_of_bind h
    cases h
    exact Image.controlledPoll_count _ _ _ _ (Int.le_of_lt hlimit) _ hpoll

theorem pollImage_keeps (call : Call σ) : Keeps call.pollImage := by
  intro x limit st k x' st' h
  cases call with
  | poll handler _ | controlledPoll handler _ =>
    obtain ⟨result, _, h⟩ := ok_of_bind h
    cases h
    rfl

end Call

/-- The images that a subscription holds. -/
def ids (sub : Subscription) : List Int := sub.images.map LoggedImage.correlationID

/-- **What a call that returns has done**: the indices it visited, with the fragments of each. -/
structure Served (call : Call σ) (sub : Subscription) (st : σ) (visited : List (Nat × Int)) (total : Int)
    (sub' : Subscription) (st' : σ) : Prop where
  /-- Each image was polled with what was left of the limit, while something was. -/
  visits : Visits call.pollImage call.limit sub.images st visited sub'.images st'
  once : (visited.map Prod.fst).Nodup
  inside : ∀ i ∈ visited.map Prod.fst, i < sub.images.length
  /-- From one image on, around the list. -/
  cyclic : visited.map Prod.fst <+: turn sub.images.length sub.roundRobinIndex
  /-- All of them, unless the limit was reached. -/
  whole : visited.map Prod.fst = turn sub.images.length sub.roundRobinIndex ∨ call.limit ≤ total
  sum : total = fragmentsOf visited
  bounded : total ≤ call.limit
  same : sub'.ids = sub.ids
  next : sub.images ≠ [] → sub'.roundRobinIndex = nextIndex sub.images.length sub.roundRobinIndex

/-- What a call that does not return has done: an image of the list stopped it, in its turn. -/
structure Broken (call : Call σ) (sub : Subscription) (st : σ) (stop : Stop) : Prop where
  by_image : ∃ visited img st' i x, Visits call.pollImage call.limit sub.images st visited img st' ∧
    visited.map Prod.fst ++ [i] <+: turn sub.images.length sub.roundRobinIndex ∧
    0 < call.limit - fragmentsOf visited ∧ img[i]? = some x ∧
    call.pollImage x (call.limit - fragmentsOf visited) st' = .error stop

/-- **One call.** -/
theorem Call.served (call : Call σ) (sub : Subscription) (st : σ) (hlimit : 0 ≤ call.limit) :
    (∃ visited total sub' st', call.run sub st = .ok (total, sub', st') ∧
      Served call sub st visited total sub' st') ∨
    ∃ stop, call.run sub st = .error stop ∧ Broken call sub st stop := by
  obtain ⟨result, houtcome, hrun⟩ := pollImages_outcome call.pollImage sub call.limit st
  rw [call.run_eq, hrun]
  cases houtcome with
  | @returned img' st' visited hvisits hfront hwhole =>
    rw [Int.sub_zero] at hvisits
    rw [Int.zero_add] at hwhole ⊢
    refine .inl ⟨visited, fragmentsOf visited, sub.after img', st', rfl, ?_⟩
    exact
      { visits := hvisits
        once := (turn_nodup _ _).sublist hfront.sublist
        inside := fun i hi => mem_turn (hfront.subset hi)
        cyclic := hfront
        whole := hwhole
        sum := rfl
        bounded := hvisits.bounded call.pollImage_bounded hlimit
        same := hvisits.keeps call.pollImage_keeps
        next := fun hsome => after_index hsome _ }
  | @stopped img' st' i x stop visited hvisits hfront hleft hi hstop =>
    rw [Int.sub_zero] at hvisits hleft hstop
    exact .inr ⟨stop, rfl, visited, img', st', i, x, hvisits, hfront, hleft, hi, hstop⟩

/-- With a positive limit an image is polled first, the one that the index points to. -/
theorem Served.first {call : Call σ} {sub sub' : Subscription} {st st' : σ} {visited : List (Nat × Int)} {total : Int}
    (h : Served call sub st visited total sub' st') (hsome : 0 < sub.images.length) (hlimit : 0 < call.limit) :
    visited.head?.map Prod.fst = some (startingIndex sub.images.length sub.roundRobinIndex) := by
  rw [← List.head?_map, ← head_turn hsome]
  cases hvisited : visited with
  | nil =>
    rcases h.whole with hwhole | hreached
    · rw [← hwhole, hvisited]
    · rw [h.sum, hvisited] at hreached
      exact absurd hreached (Int.not_le.mpr hlimit)
  | cons v rest =>
    obtain ⟨others, hturn⟩ := h.cyclic
    rw [← hturn, hvisited]
    rfl

/-! ## Images come and go -/

/-- An image comes last. -/
theorem addImage_ids (sub : Subscription) (image : LoggedImage) :
    (sub.addImage image).ids = sub.ids ++ [image.correlationID] := by
  rw [ids, addImage, ImageList.addImage, List.map_append]
  rfl

/-- The image with the id goes, and the others stay in some order. -/
theorem removeImage_ids (sub : Subscription) (correlationID : Int) :
    (sub.removeImage correlationID).2.ids.Perm (sub.ids.erase correlationID) := by
  rcases Slice.removeFirst_cases (·.correlationID = correlationID) sub.images with
    ⟨hsame, hnone⟩ | ⟨removed, images, hremoved, hid, hperm⟩
  · rw [removeImage, ImageList.removeImage, hsame, List.erase_of_not_mem]
    intro hmem
    obtain ⟨image, himage, hid⟩ := List.mem_map.mp hmem
    simpa [hid] using hnone image himage
  · have hids := hperm.map LoggedImage.correlationID
    rw [List.map_cons, of_decide_eq_true hid] at hids
    rw [removeImage, ImageList.removeImage, hremoved]
    exact (List.cons_perm_iff_perm_erase.mp hids).2

/-- The conductor adds an image or removes one. -/
def change (sub : Subscription) : LoggedImage ⊕ Int → Subscription
  | .inl image => sub.addImage image
  | .inr correlationID => (sub.removeImage correlationID).2

/-- **Through all changes the list holds the images that were added and not removed**, though a removal puts the last
image in the place of the one that goes. -/
theorem images_changed (sub : Subscription) (changes : List (LoggedImage ⊕ Int)) :
    (changes.foldl change sub).ids.Perm (changes.foldl (fun ids c =>
      match c with
      | .inl image => ids ++ [image.correlationID]
      | .inr correlationID => ids.erase correlationID) sub.ids) := by
  induction changes using List.reverseRecOn with
  | nil => exact .refl _
  | append_singleton changes c ih =>
    rw [List.foldl_concat, List.foldl_concat]
    cases c with
    | inl image =>
      rw [change, addImage_ids]
      exact ih.append_right _
    | inr correlationID => exact (removeImage_ids _ correlationID).trans (ih.erase correlationID)

/-! ## Calls in a row -/

/-- A call that has returned. -/
structure Called (σ : Type) where
  call : Call σ
  sub : Subscription
  st : σ
  visited : List (Nat × Int)
  total : Int
  sub' : Subscription
  st' : σ
  ran : call.run sub st = .ok (total, sub', st')
  served : Served call sub st visited total sub' st'

/-- Calls in a row, during which the list holds the same images. What the images have to read may change between two
of them; the round-robin index is the subscription's own. -/
structure Window (ids : List Int) (window : List (Called σ)) : Prop where
  same : ∀ c ∈ window, c.sub.ids = ids
  chained : window.IsChain fun c d => d.sub.roundRobinIndex = c.sub'.roundRobinIndex

theorem nextIndex_advances {n index j : Nat} (h : index + j ≤ n) : (nextIndex n)^[j] index = index + j := by
  induction j with
  | zero => rfl
  | succ j ih => rw [Function.iterate_succ_apply', ih (by omega), nextIndex, if_neg (by omega), Nat.add_assoc]

theorem nextIndex_restarts {n index : Nat} (h : n ≤ index) : nextIndex n index = 0 := by rw [nextIndex, if_pos h]

/-- The index goes over all of the list, and once past its end, in `n + 1` calls. -/
theorem starts_everywhere (hi : i < n) (index : Nat) :
    ∃ j ≤ n, startingIndex n ((nextIndex n)^[j] index) = i := by
  have hstart : startingIndex n i = i := by rw [startingIndex, if_neg (Nat.not_le.mpr hi)]
  -- from the restart on, the image comes `i` calls later
  have hagain : (nextIndex n)^[i] 0 = i := by rw [nextIndex_advances (by omega), Nat.zero_add]
  by_cases hpast : n ≤ index
  · refine ⟨i + 1, hi, ?_⟩
    rw [Function.iterate_succ_apply, nextIndex_restarts hpast, hagain, hstart]
  by_cases hahead : index ≤ i
  · refine ⟨i - index, by omega, ?_⟩
    rw [nextIndex_advances (by omega), Nat.add_sub_cancel' hahead, hstart]
  · have hend : (nextIndex n)^[n - index] index = n := by
      rw [nextIndex_advances (by omega)]
      omega
    refine ⟨i + 1 + (n - index), by omega, ?_⟩
    rw [Function.iterate_add_apply, hend, Function.iterate_succ_apply, nextIndex_restarts (Nat.le_refl n), hagain, hstart]

theorem length_of_ids {ids : List Int} (h : sub.ids = ids) : sub.images.length = ids.length := by
  rw [← h, Subscription.ids, List.length_map]

/-- The index that each of the calls finds. -/
theorem Window.index {ids : List Int} {window : List (Called σ)} (h : Window ids window) (hsome : 0 < ids.length)
    (first : Called σ) (hfirst : window[0]? = some first) (j : Nat) : ∀ c, window[j]? = some c →
      c.sub.roundRobinIndex = (nextIndex ids.length)^[j] first.sub.roundRobinIndex := by
  induction j with
  | zero =>
    intro c hc
    rw [hfirst] at hc
    cases hc
    rfl
  | succ j ih =>
    intro c hc
    obtain ⟨hlt, hc⟩ := List.getElem?_eq_some_iff.mp hc
    have hbefore := List.isChain_iff_getElem.mp h.chained j hlt
    have hlength := length_of_ids (h.same _ (List.getElem_mem (Nat.lt_of_succ_lt hlt)))
    have hnext := window[j].served.next (List.length_pos_iff.mp (by omega))
    rw [← hc, hbefore, hnext, hlength, Function.iterate_succ_apply', ih _ (List.getElem?_eq_getElem _)]

/-- **Polling is bounded and fair.** A call polls the images once each at most, in the order of the list from one of them
on, while the limit is not reached; it returns what they read, no more than the limit, and only an image can stop it.
In `n + 1` calls in a row with the same `n` images every one of them is where a call starts, and the first that it polls
if it may read anything at all. -/
theorem polling_bounded_and_fair :
    (∀ (call : Call σ) (sub : Subscription) (st : σ), 0 ≤ call.limit →
      (∃ visited total sub' st', call.run sub st = .ok (total, sub', st') ∧
        Served call sub st visited total sub' st') ∨
      ∃ stop, call.run sub st = .error stop ∧ Broken call sub st stop) ∧
    ∀ (ids : List Int) (window : List (Called σ)), Window ids window → window.length = ids.length + 1 →
      ∀ i < ids.length, ∃ c ∈ window, startingIndex ids.length c.sub.roundRobinIndex = i ∧
        (0 < c.call.limit → c.visited.head?.map Prod.fst = some i) := by
  refine ⟨Call.served, ?_⟩
  intro ids window h hlength i hi
  have hsome : 0 < ids.length := by omega
  have hfirst : window[0]? = some window[0] := List.getElem?_eq_getElem (by omega)
  obtain ⟨j, hj, hstart⟩ := starts_everywhere hi window[0].sub.roundRobinIndex
  have hlt : j < window.length := by omega
  have hindex := h.index hsome _ hfirst j _ (List.getElem?_eq_getElem hlt)
  have himages := length_of_ids (h.same _ (List.getElem_mem hlt))
  rw [← hindex] at hstart
  refine ⟨window[j], List.getElem_mem hlt, hstart, fun hlimit => ?_⟩
  rw [window[j].served.first (by omega) hlimit, himages, hstart]

/-- A closed image, with nothing to read. -/
def closedImage : LoggedImage := ⟨7, LogParams.smallest, fun _ => ⟨fun _ => 0, 65536⟩, ⟨true, 0⟩⟩

/-- A call of a subscription to it, that may read a fragment or nothing, at the image or past it. -/
def idleCall (reads : Bool) (past : Bool) : Called Unit where
  call := .poll (fun st _ _ _ _ => .ok st) reads.toInt
  sub := ⟨[closedImage], past.toNat⟩
  st := ()
  visited := if reads then [(0, 0)] else []
  total := 0
  sub' := ⟨[closedImage], (!past).toNat⟩
  st' := ()
  ran := by cases reads <;> cases past <;> rfl
  served :=
    { visits := by
        cases reads with
        | false => exact .nil
        | true => exact .cons Int.one_pos rfl rfl .nil
      once := by cases reads <;> decide
      inside := by cases reads <;> cases past <;> decide
      cyclic := by cases reads <;> cases past <;> decide
      whole := by cases reads <;> cases past <;> decide
      sum := by cases reads <;> rfl
      bounded := by cases reads <;> decide
      same := rfl
      next := fun _ => by cases past <;> rfl }

theorem idleCall_window (reads : Bool) : Window [7] [idleCall reads false, idleCall reads true] where
  same := by
    intro c hc
    rcases List.mem_pair.mp hc with rfl | rfl <;> rfl
  chained := .cons_cons rfl (.singleton _)

/-- Two images with two fragments each, at the given positions. -/
def splitImages (first second : Int) (roundRobinIndex : Nat) : Subscription :=
  ⟨[⟨7, .smallest, fun _ => Image.splitTerm, ⟨false, first⟩⟩, ⟨9, .smallest, fun _ => Image.splitTerm, ⟨false, second⟩⟩],
    roundRobinIndex⟩

/-- A poll that counts its fragments, three at most. -/
def countingCall : Call Nat := .poll (fun n _ _ _ _ => .ok (n + 1)) 3

/-- Where the images of a subscription are. -/
def positions (sub : Subscription) : List Int := sub.images.map (·.image.subscriberPosition)

/-- What a call reads, and where it leaves the images and the index. -/
def ranTo (sub : Subscription) : Except Stop (Int × List Int × Nat) :=
  (countingCall.run sub 0).map fun r => (r.1, r.2.1.positions, r.2.1.roundRobinIndex)

/-- A call that returns what it is run to. -/
theorem exists_called (sub : Subscription) {total : Int} {positions : List Int} {index : Nat}
    (hran : ranTo sub = .ok (total, positions, index))
    (h : (∃ visited total sub' st', countingCall.run sub 0 = .ok (total, sub', st') ∧
        Served countingCall sub 0 visited total sub' st') ∨
      ∃ stop, countingCall.run sub 0 = .error stop ∧ Broken countingCall sub 0 stop) :
    ∃ c : Called Nat, c.call = countingCall ∧ c.sub = sub ∧ c.total = total ∧ c.sub'.positions = positions ∧
      c.sub'.roundRobinIndex = index := by
  unfold ranTo at hran
  obtain ⟨visited, total', sub', st', hrun, hserved⟩ | ⟨stop, hrun, _⟩ := h
  · rw [hrun] at hran
    cases hran
    exact ⟨⟨countingCall, sub, 0, visited, total', sub', st', hrun, hserved⟩, rfl, rfl, rfl, rfl, rfl⟩
  · rw [hrun] at hran
    cases hran

/-- Three calls over two images with two fragments each. The first one reaches its limit in the middle of the second
image, the second one starts there, and the third one starts over. -/
theorem polling_bounded_and_fair_two_images :
    ∃ c d e : Called Nat, Window [7, 9] [c, d, e] ∧
      (c.total = 3 ∧ c.sub'.positions = [160, 64]) ∧ (d.total = 1 ∧ d.sub.positions = [160, 64]) ∧ e.total = 0 ∧
      ∀ i < 2, ∃ f ∈ [c, d, e], f.visited.head?.map Prod.fst = some i := by
  obtain ⟨c, hc, hcsub, hctotal, hcat, hcnext⟩ := exists_called (splitImages 0 0 0)
    (show ranTo _ = .ok (3, [160, 64], 1) by decide +kernel) (polling_bounded_and_fair.1 _ _ _ (by decide))
  obtain ⟨d, hd, hdsub, hdtotal, _, hdnext⟩ := exists_called (splitImages 160 64 1)
    (show ranTo _ = .ok (1, [160, 160], 2) by decide +kernel) (polling_bounded_and_fair.1 _ _ _ (by decide))
  obtain ⟨e, he, hesub, hetotal, _, _⟩ := exists_called (splitImages 160 160 2)
    (show ranTo _ = .ok (0, [160, 160], 0) by decide +kernel) (polling_bounded_and_fair.1 _ _ _ (by decide))
  have hwindow : Window [7, 9] [c, d, e] :=
    { same := by simp [hcsub, hdsub, hesub, splitImages, ids]
      chained := .cons_cons (by rw [hdsub, hcnext]; rfl) (.cons_cons (by rw [hesub, hdnext]; rfl) (.singleton _)) }
  refine ⟨c, d, e, hwindow, ⟨hctotal, hcat⟩, ⟨hdtotal, by rw [hdsub]; rfl⟩, hetotal, fun i hi => ?_⟩
  obtain ⟨f, hf, _, hfirst⟩ := polling_bounded_and_fair.2 _ _ hwindow rfl i hi
  have hcall : f.call = countingCall := by
    simp only [List.mem_cons, List.not_mem_nil, or_false] at hf
    rcases hf with rfl | rfl | rfl
    · exact hc
    · exact hd
    · exact he
  exact ⟨f, hf, hfirst (by rw [hcall]; decide)⟩

/-- With a limit of zero nothing is polled, so no image is the first. -/
theorem no_image_first :
    ¬ ∀ (ids : List Int) (window : List (Called Unit)), Window ids window → window.length = ids.length + 1 →
      (∀ c ∈ window, 0 ≤ c.call.limit) → ∀ i < ids.length, ∃ c ∈ window, c.visited.head?.map Prod.fst = some i := by
  intro h
  obtain ⟨c, hc, hfirst⟩ := h _ _ (idleCall_window false) rfl (by decide) 0 (by decide)
  rcases List.mem_pair.mp hc with rfl | rfl <;> cases hfirst

end Subscription

end AeronGo
