import AeronGo.Cluster.Client
import Mathlib.Data.List.Nodup
import Mathlib.Data.List.Perm.Basic
import Mathlib.Logic.Relation

/-!
# The member table of the cluster client

Every publication is opened by one attempt and held by at most one member; `Sound exempt` says so,
together with: no member holds a closed publication, the exempt ones apart. Each operation on the
table is shown to keep `Sound exempt` once, for every `exempt`. The exemption is what a new leader
needs: the client closes the ingress publication in place, so until the endpoint list is read the
member that holds it is the one unsound entry, and it stays so exactly when the list does not
re-address it (`unheld_foldEndpoints_iff`).
-/

namespace AeronGo.Cluster

open AeronCluster

/-- Distinct members, each publication held once and opened earlier, and only exempt publications
held closed. -/
structure SoundTable (exempt : Nat → Prop) (members : List MemberIngress) (attempts : Nat)
    (isClosed : Nat → Bool) (ingressPub : Option Nat) : Prop where
  ids : (members.map (·.memberId)).Nodup
  opened : ∀ m ∈ members, ∀ p, m.publication = some p → p < attempts
  held : ∀ m ∈ members, ∀ m' ∈ members, ∀ p, m.publication = some p → m'.publication = some p →
    m.memberId = m'.memberId
  usable : ∀ m ∈ members, ∀ p, m.publication = some p → ¬ exempt p → isClosed p = false
  unopened : ∀ p, attempts ≤ p → isClosed p = false
  ingress : ∀ p, ingressPub = some p → p < attempts

/-- `SoundTable` of a client. -/
def Sound (exempt : Nat → Prop) (c : AeronCluster) : Prop :=
  SoundTable exempt c.memberByIdMap c.attempts c.isClosed c.ingressPub

/-- No member holds a publication the client has closed. -/
def Usable (c : AeronCluster) : Prop :=
  ∀ m ∈ c.memberByIdMap, ∀ p, m.publication = some p → c.isClosed p = false

/-- No member holds the publication. -/
def Unheld (q : Nat) (c : AeronCluster) : Prop := ∀ m ∈ c.memberByIdMap, m.publication ≠ some q

variable {c : AeronCluster} {exempt : Nat → Prop}

theorem Sound.usable_of_none (h : Sound (fun _ => False) c) : Usable c :=
  fun m hm p hp => SoundTable.usable h m hm p hp not_false

theorem Sound.mono {exempt' : Nat → Prop} (h : Sound exempt c)
    (himp : ∀ p, exempt p → exempt' p) : Sound exempt' c :=
  ⟨h.ids, h.opened, h.held, fun m hm p hp hn => h.usable m hm p hp fun he => hn (himp p he),
    h.unopened, h.ingress⟩

/-- A table whose exempt publications nobody holds has no exemption. -/
theorem Sound.of_unheld (h : Sound exempt c)
    (hq : ∀ p, exempt p → Unheld p c) : Sound (fun _ => False) c := by
  refine ⟨h.ids, h.opened, h.held, ?_, h.unopened, h.ingress⟩
  intro m hm p hp _
  exact h.usable m hm p hp fun he => hq p he m hm hp

/-! ## The table's operations -/

variable {m : MemberIngress} {memberId : Int} {p : Nat}

theorem mem_of_member?
    (h : c.member? memberId = some m) : m ∈ c.memberByIdMap ∧ m.memberId = memberId := by
  refine ⟨List.mem_of_find?_eq_some h, ?_⟩
  simpa using List.find?_some h

theorem member?_eq_none :
    c.member? memberId = none ↔ ∀ m ∈ c.memberByIdMap, m.memberId ≠ memberId := by
  simp [member?, List.find?_eq_none]

/-- Storing a member replaces the one with its id and keeps every other. -/
theorem mem_setMember {x : MemberIngress} :
    x ∈ (c.setMember m).memberByIdMap ↔
      x = m ∨ (x ∈ c.memberByIdMap ∧ x.memberId ≠ m.memberId) := by
  unfold setMember
  cases hf : c.member? m.memberId with
  | none =>
    have hnone := member?_eq_none.mp hf
    simp only [Option.isSome_none, Bool.false_eq_true, if_false, List.mem_append, List.mem_singleton]
    constructor
    · rintro (hx | rfl)
      · exact Or.inr ⟨hx, hnone x hx⟩
      · exact Or.inl rfl
    · rintro (rfl | hx)
      · exact Or.inr rfl
      · exact Or.inl hx.1
  | some y =>
    obtain ⟨hy, hid⟩ := mem_of_member? hf
    simp only [Option.isSome_some, if_true, List.mem_map]
    constructor
    · rintro ⟨z, hz, rfl⟩
      by_cases h : z.memberId = m.memberId
      · exact Or.inl (if_pos h)
      · rw [if_neg h]
        exact Or.inr ⟨hz, h⟩
    · rintro (rfl | ⟨hx, hne⟩)
      · exact ⟨y, hy, if_pos hid⟩
      · exact ⟨x, hx, if_neg hne⟩

theorem ids_setMember
    (h : (c.memberByIdMap.map (·.memberId)).Nodup) :
    ((c.setMember m).memberByIdMap.map (·.memberId)).Nodup := by
  unfold setMember
  cases hf : c.member? m.memberId with
  | none =>
    have hnone := member?_eq_none.mp hf
    simp only [Option.isSome_none, Bool.false_eq_true, if_false, List.map_append, List.map_cons,
      List.map_nil]
    refine List.nodup_append.mpr ⟨h, List.nodup_singleton _, ?_⟩
    intro a ha b hb
    obtain ⟨x, hx, rfl⟩ := List.mem_map.mp ha
    rw [List.mem_singleton.mp hb]
    exact hnone x hx
  | some y =>
    simp only [Option.isSome_some, if_true, List.map_map]
    have hsame : ((fun x : MemberIngress => x.memberId) ∘
        fun x => if x.memberId = m.memberId then m else x) = fun x => x.memberId := by
      funext x
      by_cases hx : x.memberId = m.memberId
      · rw [Function.comp_apply, if_pos hx, hx]
      · rw [Function.comp_apply, if_neg hx]
    rw [hsame]
    exact h

@[simp] theorem setMember_attempts (c : AeronCluster) (m : MemberIngress) :
    (c.setMember m).attempts = c.attempts := by
  unfold setMember
  split <;> rfl

@[simp] theorem setMember_isClosed (c : AeronCluster) (m : MemberIngress) :
    (c.setMember m).isClosed = c.isClosed := by
  unfold setMember
  split <;> rfl

@[simp] theorem setMember_ingressPub (c : AeronCluster) (m : MemberIngress) :
    (c.setMember m).ingressPub = c.ingressPub := by
  unfold setMember
  split <;> rfl

/-- With distinct ids, a lookup finds the member that is there. -/
theorem member?_of_mem
    (h : (c.memberByIdMap.map (·.memberId)).Nodup) (hm : m ∈ c.memberByIdMap) :
    c.member? m.memberId = some m := by
  cases hf : c.member? m.memberId with
  | none => exact absurd rfl (member?_eq_none.mp hf m hm)
  | some x =>
    obtain ⟨hx, hid⟩ := mem_of_member? hf
    rw [List.inj_on_of_nodup_map h hx hm hid]

theorem member?_setMember (c : AeronCluster) (m : MemberIngress) (memberId : Int) :
    (c.setMember m).member? memberId = if memberId = m.memberId then some m else c.member? memberId := by
  unfold setMember
  cases hf : c.member? m.memberId with
  | none =>
    have hnone := member?_eq_none.mp hf
    simp only [Option.isSome_none, Bool.false_eq_true, if_false, member?, List.find?_append,
      List.find?_singleton]
    by_cases hid : memberId = m.memberId
    · subst hid
      have hfind : c.memberByIdMap.find? (fun x => x.memberId = m.memberId) = none := hf
      simp [hfind]
    · simp [hid, Ne.symm hid]
  | some y =>
    simp only [Option.isSome_some, if_true, member?, List.find?_map]
    by_cases hid : memberId = m.memberId
    · subst hid
      have hsame : ((fun x : MemberIngress => decide (x.memberId = m.memberId)) ∘
          fun x => if x.memberId = m.memberId then m else x) = fun x => decide (x.memberId = m.memberId) := by
        funext x
        by_cases hx : x.memberId = m.memberId <;> simp [hx]
      have hfind : c.memberByIdMap.find? (fun x => x.memberId = m.memberId) = some y := hf
      have hy := (mem_of_member? hf).2
      rw [hsame, hfind, Option.map_some, if_pos hy, if_pos rfl]
    · have hsame : ((fun x : MemberIngress => decide (x.memberId = memberId)) ∘
          fun x => if x.memberId = m.memberId then m else x) = fun x => decide (x.memberId = memberId) := by
        funext x
        by_cases hx : x.memberId = m.memberId
        · simp [hx]
        · simp [hx]
      rw [hsame, if_neg hid]
      cases hfind : c.memberByIdMap.find? (fun x => decide (x.memberId = memberId)) with
      | none => rfl
      | some x =>
        have hx : x.memberId = memberId := by simpa using List.find?_some hfind
        simp [hx, hid]

@[simp] theorem member?_closePub (c : AeronCluster) (pub : Nat) (memberId : Int) :
    (c.closePub pub).member? memberId = c.member? memberId := rfl

/-- Storing a member keeps the table sound when its publication is open, or excepted, and held by
no other member. -/
theorem Sound.setMember (h : Sound exempt c)
    (hopened : ∀ p, m.publication = some p → p < c.attempts)
    (husable : ∀ p, m.publication = some p → ¬ exempt p → c.isClosed p = false)
    (hheld : ∀ p, m.publication = some p → ∀ x ∈ c.memberByIdMap, x.publication = some p →
      x.memberId = m.memberId) : Sound exempt (c.setMember m) := by
  refine ⟨ids_setMember h.ids, ?_, ?_, ?_, ?_, ?_⟩
  · intro x hx p hp
    rw [setMember_attempts]
    rcases mem_setMember.mp hx with rfl | ⟨hx, _⟩
    · exact hopened p hp
    · exact h.opened x hx p hp
  · intro x hx y hy p hxp hyp
    rcases mem_setMember.mp hx with hxm | ⟨hxc, _⟩ <;>
      rcases mem_setMember.mp hy with hym | ⟨hyc, _⟩
    · rw [hxm, hym]
    · subst hxm
      exact (hheld p hxp y hyc hyp).symm
    · subst hym
      exact hheld p hyp x hxc hxp
    · exact h.held x hxc y hyc p hxp hyp
  · intro x hx p hp hq
    rw [setMember_isClosed]
    rcases mem_setMember.mp hx with rfl | ⟨hx, _⟩
    · exact husable p hp hq
    · exact h.usable x hx p hp hq
  · intro p hp
    rw [setMember_isClosed]
    exact h.unopened p (by simpa using hp)
  · intro p hp
    rw [setMember_attempts]
    exact h.ingress p (by simpa using hp)

theorem Sound.setIngress (h : Sound exempt c) {pub : Option Nat}
    (hpub : ∀ p, pub = some p → p < c.attempts) : Sound exempt { c with ingressPub := pub } :=
  ⟨h.ids, h.opened, h.held, h.usable, h.unopened, hpub⟩

/-- Closing a member closes its own publication and drops it. -/
theorem Sound.closeMember (h : Sound exempt c)
    (hm : m ∈ c.memberByIdMap) : Sound exempt (c.closeMember m) := by
  unfold AeronCluster.closeMember
  cases hp : m.publication with
  | none => exact h
  | some pub =>
    have hother : ∀ x ∈ c.memberByIdMap, x.memberId ≠ m.memberId → ∀ p, x.publication = some p →
        p ≠ pub := by
      rintro x hx hne p hxp rfl
      exact hne (h.held x hx m hm p hxp hp)
    have hpub := h.opened m hm pub hp
    refine ⟨ids_setMember h.ids, ?_, ?_, ?_, ?_, ?_⟩
    · intro x hx p hxp
      rcases mem_setMember.mp hx with rfl | ⟨hx, _⟩
      · exact nomatch hxp
      · simpa [closePub] using h.opened x hx p hxp
    · intro x hx y hy p hxp hyp
      rcases mem_setMember.mp hx with rfl | ⟨hx, _⟩
      · exact nomatch hxp
      · rcases mem_setMember.mp hy with rfl | ⟨hy, _⟩
        · exact nomatch hyp
        · exact h.held x hx y hy p hxp hyp
    · intro x hx p hxp hq
      rcases mem_setMember.mp hx with rfl | ⟨hx, hne⟩
      · exact nomatch hxp
      · simpa [closePub, hother x hx hne p hxp] using h.usable x hx p hxp hq
    · intro p hle
      have hle' : c.attempts ≤ p := by simpa [closePub] using hle
      have hne : p ≠ pub := by omega
      simpa [closePub, hne] using h.unopened p hle'
    · intro p hin
      have hin' : c.ingressPub = some p := by simpa [closePub] using hin
      simpa [closePub] using h.ingress p hin'

/-- A member with another id stays in the table when a member is closed. -/
theorem mem_closeMember_of_ne {x : MemberIngress} (hx : x ∈ c.memberByIdMap)
    (hne : x.memberId ≠ m.memberId) : x ∈ (c.closeMember m).memberByIdMap := by
  unfold AeronCluster.closeMember
  cases m.publication with
  | none => exact hx
  | some pub => exact mem_setMember.mpr (Or.inr ⟨hx, hne⟩)

/-- Asking for a publication keeps the table sound, and what is granted is new and open. -/
theorem Sound.nextAttempt (h : Sound exempt c) :
    Sound exempt { c with attempts := c.attempts + 1 } := by
  refine ⟨h.ids, ?_, h.held, h.usable, ?_, ?_⟩
  · intro m hm p hp
    exact Nat.lt_succ_of_lt (h.opened m hm p hp)
  · intro p hp
    exact h.unopened p (Nat.le_of_succ_le hp)
  · intro p hp
    exact Nat.lt_succ_of_lt (h.ingress p hp)

/-- A granted publication may be given to any member. -/
theorem Sound.grant (h : Sound exempt c) (m : MemberIngress) :
    Sound exempt (({ c with attempts := c.attempts + 1 } : AeronCluster).setMember
      { m with publication := some c.attempts }) := by
  apply h.nextAttempt.setMember
  · rintro p ⟨⟩
    exact Nat.lt_succ_self _
  · rintro p ⟨⟩ _
    exact h.unopened _ (Nat.le_refl _)
  · rintro p ⟨⟩ x hx hxp
    exact absurd (h.opened x hx _ hxp) (Nat.lt_irrefl _)

/-! ## Steps of the table -/

/-- What the client does to its table, one store at a time. `t` are the members that are touched; a member
that is closed is in the table as far as `q` holds. -/
inductive TableStep (q : Prop) (t : Int → Prop) (c : AeronCluster) : AeronCluster → Prop
  | store (m : MemberIngress) (hid : t m.memberId)
      (hpub : m.publication = none ∨ ∃ x ∈ c.memberByIdMap, x.memberId = m.memberId ∧ x.publication = m.publication) :
      TableStep q t c (c.setMember m)
  | close (m : MemberIngress) (hid : t m.memberId) (hm : q → m ∈ c.memberByIdMap) : TableStep q t c (c.closeMember m)
  | ask : TableStep q t c { c with attempts := c.attempts + 1 }
  | grant (m : MemberIngress) (hid : t m.memberId) : TableStep q t c
      (({ c with attempts := c.attempts + 1 } : AeronCluster).setMember { m with publication := some c.attempts })
  | ingress (pub : Option Nat) (hpub : pub = none ∨ ∃ m ∈ c.memberByIdMap, m.publication = pub) :
      TableStep q t c { c with ingressPub := pub }

/-- A run of the table. -/
abbrev TableRun (q : Prop) (t : Int → Prop) : AeronCluster → AeronCluster → Prop := Relation.ReflTransGen (TableStep q t)

section Runs

variable {q : Prop} {t : Int → Prop} {exempt : Nat → Prop} {creates : Nat → Bool} {c d : AeronCluster}

theorem setMember_frame (c : AeronCluster) (m : MemberIngress) :
    c.setMember m = { c with memberByIdMap := (c.setMember m).memberByIdMap } := by
  unfold setMember
  split <;> rfl

/-- A run of the table leaves the rest of the client alone. -/
theorem TableRun.frame (h : TableRun q t c d) : d = { c with
    ingressPub := d.ingressPub, memberByIdMap := d.memberByIdMap, attempts := d.attempts, isClosed := d.isClosed } := by
  induction h with
  | refl => rfl
  | @tail d e _ step ih =>
    have hset : ∀ {x : AeronCluster} (m : MemberIngress),
        x = { c with ingressPub := x.ingressPub, memberByIdMap := x.memberByIdMap, attempts := x.attempts,
                      isClosed := x.isClosed } → x.setMember m = { c with
          ingressPub := (x.setMember m).ingressPub, memberByIdMap := (x.setMember m).memberByIdMap,
          attempts := (x.setMember m).attempts, isClosed := (x.setMember m).isClosed } := by
      intro x m hx
      rw [setMember_frame x m, hx]
    cases step with
    | store m => exact hset m ih
    | close m =>
      unfold AeronCluster.closeMember
      split
      · exact hset _ (by rw [closePub, ih])
      · exact ih
    | ask | ingress pub => rw [ih]
    | grant m => exact hset _ (by rw [ih])

/-- Attempts are counted up, nothing is opened again, and no member is removed. -/
theorem TableRun.grows (h : TableRun q t c d) : c.attempts ≤ d.attempts ∧
    (∀ p, c.isClosed p = true → d.isClosed p = true) ∧ (c.memberByIdMap ≠ [] → d.memberByIdMap ≠ []) := by
  have hset : ∀ (x : AeronCluster) (m : MemberIngress), (x.setMember m).memberByIdMap ≠ [] :=
    fun x m => List.ne_nil_of_mem (mem_setMember.mpr (.inl rfl))
  induction h with
  | refl => exact ⟨Nat.le_refl _, fun _ hp => hp, id⟩
  | tail _ step ih =>
    obtain ⟨hle, hclosed, hne⟩ := ih
    cases step with
    | store m => exact ⟨by simpa using hle, by simpa using hclosed, fun _ => hset _ _⟩
    | close m =>
      unfold AeronCluster.closeMember
      split
      · refine ⟨by simpa [closePub] using hle, fun p hp => ?_, fun _ => hset _ _⟩
        simp [closePub, hclosed p hp]
      · exact ⟨hle, hclosed, hne⟩
    | ask => exact ⟨Nat.le_succ_of_le hle, hclosed, hne⟩
    | grant m => exact ⟨by simpa using Nat.le_succ_of_le hle, by simpa using hclosed, fun _ => hset _ _⟩
    | ingress pub => exact ⟨hle, hclosed, hne⟩

theorem Sound.run (h : Sound exempt c) (hq : q) (hrun : TableRun q t c d) : Sound exempt d := by
  induction hrun with
  | refl => exact h
  | tail _ step ih =>
    cases step with
    | store m _ hpub =>
      obtain hnone | ⟨x, hx, hid, hsame⟩ := hpub
      · exact ih.setMember (by simp [hnone]) (by simp [hnone]) (by simp [hnone])
      · exact ih.setMember (hsame ▸ ih.opened x hx) (hsame ▸ ih.usable x hx)
          fun p hp y hy hyp => (ih.held y hy x hx p hyp (hsame.trans hp)).trans hid
    | close m _ hm => exact ih.closeMember (hm hq)
    | ask => exact ih.nextAttempt
    | grant m => exact ih.grant m
    | ingress pub hpub =>
      refine ih.setIngress fun p hp => ?_
      obtain hnone | ⟨m, hm, hsame⟩ := hpub
      · exact nomatch hnone.symm.trans hp
      · exact ih.opened m hm p (hsame.trans hp)

/-- A publication nobody holds is not taken up again. -/
theorem Unheld.run (h : Unheld p c) (hp : p < c.attempts) (hrun : TableRun q t c d) : Unheld p d := by
  have hset : ∀ {x : AeronCluster} {m : MemberIngress}, Unheld p x → m.publication ≠ some p → Unheld p (x.setMember m) := by
    intro x m hx hm y hy
    rcases mem_setMember.mp hy with rfl | ⟨hy, _⟩
    · exact hm
    · exact hx y hy
  induction hrun with
  | refl => exact h
  | tail hrun step ih =>
    cases step with
    | store m _ hpub =>
      obtain hnone | ⟨x, hx, _, hsame⟩ := hpub
      · exact hset ih (by simp [hnone])
      · exact hset ih (hsame ▸ ih x hx)
    | close m =>
      unfold AeronCluster.closeMember
      split
      · exact hset ih nofun
      · exact ih
    | ask | ingress pub => exact ih
    | grant m =>
      refine hset ih fun heq => ?_
      cases heq
      exact Nat.lt_irrefl _ (Nat.lt_of_lt_of_le hp (TableRun.grows hrun).1)

/-- A member that is not touched stays as it is. -/
theorem TableRun.mem (h : TableRun q t c d) (hid : ¬ t m.memberId) (hm : m ∈ c.memberByIdMap) :
    m ∈ d.memberByIdMap := by
  have hne : ∀ {x : MemberIngress}, t x.memberId → m.memberId ≠ x.memberId := fun hx he => hid (he ▸ hx)
  induction h with
  | refl => exact hm
  | tail _ step ih =>
    cases step with
    | store x hx | grant x hx => exact mem_setMember.mpr (.inr ⟨ih, hne hx⟩)
    | close x hx => exact mem_closeMember_of_ne ih (hne hx)
    | ask | ingress pub => exact ih

/-! ## The loops over the table -/

theorem addressMember_run (ht : t memberId) (address : Text) :
    TableRun q t c (c.addressMember memberId address) := by
  unfold AeronCluster.addressMember
  cases hf : c.member? memberId with
  | none => exact .single (.store _ ht (.inl rfl))
  | some m =>
    obtain ⟨hm, rfl⟩ := mem_of_member? hf
    simp only
    split
    · exact (Relation.ReflTransGen.single (.store { m with endpoint := address } ht (.inr ⟨m, hm, rfl, rfl⟩))).tail
        (.close _ ht fun _ => mem_setMember.mpr (.inl rfl))
    · exact .refl

theorem adoptLeader_run (ht : t memberId) : TableRun q t c (c.adoptLeader creates memberId) := by
  unfold AeronCluster.adoptLeader createIngressPublication
  cases hf : c.member? memberId with
  | none => exact .refl
  | some m =>
    obtain ⟨hm, rfl⟩ := mem_of_member? hf
    simp only
    cases hp : m.publication with
    | some pub => exact .single (.ingress _ (.inr ⟨m, hm, hp⟩))
    | none =>
      by_cases hc : creates c.attempts
      · simp only [hc, if_true]
        exact (Relation.ReflTransGen.single (.grant m ht)).tail (.ingress _ (.inr ⟨_, mem_setMember.mpr (.inl rfl), rfl⟩))
      · simp only [hc]
        exact (Relation.ReflTransGen.single .ask).tail (.ingress _ (.inl rfl))

theorem updateMemberEndpoint_run {entry : Int × Text} (ht : t entry.1) :
    TableRun q t c (c.updateMemberEndpoint creates entry) := by
  unfold AeronCluster.updateMemberEndpoint
  simp only
  split
  · exact (addressMember_run ht _).trans (adoptLeader_run ht)
  · exact addressMember_run ht _

theorem foldEndpoints_run (entries : List (Int × Text)) :
    TableRun q (fun _ => True) c (entries.foldl (AeronCluster.updateMemberEndpoint creates) c) := by
  induction entries generalizing c with
  | nil => exact .refl
  | cons entry rest ih => exact (updateMemberEndpoint_run trivial).trans ih

theorem Sound.foldEndpoints (entries : List (Int × Text)) (h : Sound exempt c) :
    Sound exempt (entries.foldl (AeronCluster.updateMemberEndpoint creates) c) := h.run trivial (foldEndpoints_run entries)

/-- Closing some of the listed members, each at most once. -/
theorem closeMembers_run (l : List MemberIngress) :
    ∀ {c : AeronCluster}, (q → (l.map (·.memberId)).Nodup ∧ ∀ m ∈ l, m ∈ c.memberByIdMap) →
      TableRun q (fun _ => True) c
        (l.foldl (fun c m => if m.memberId ≠ c.leaderMemberId then c.closeMember m else c) c) := by
  induction l with
  | nil => exact fun _ => .refl
  | cons m rest ih =>
    intro c h
    rw [List.foldl_cons]
    split
    · refine .head (.close m trivial fun hq => (h hq).2 m List.mem_cons_self) (ih fun hq => ?_)
      obtain ⟨hnd, hmem⟩ := h hq
      rw [List.map_cons, List.nodup_cons] at hnd
      refine ⟨hnd.2, fun x hx => mem_closeMember_of_ne (hmem x (List.mem_cons_of_mem _ hx)) fun he => ?_⟩
      exact hnd.1 (he ▸ List.mem_map_of_mem hx)
    · exact ih fun hq => ⟨(List.nodup_cons.mp (h hq).1).2, fun x hx => (h hq).2 x (List.mem_cons_of_mem _ hx)⟩

theorem closeNonLeaderPublications_run (h : q → (c.memberByIdMap.map (·.memberId)).Nodup) :
    TableRun q (fun _ => True) c c.closeNonLeaderPublications :=
  closeMembers_run _ fun hq => ⟨h hq, fun _ hm => hm⟩

theorem Sound.closeNonLeaderPublications (h : Sound exempt c) : Sound exempt c.closeNonLeaderPublications :=
  h.run h.ids (closeNonLeaderPublications_run id)

theorem createMemberPublications_run (ids : List Int) :
    ∀ {c : AeronCluster}, TableRun q (fun _ => True) c (c.createMemberPublications creates ids).2 := by
  induction ids with
  | nil => exact .refl
  | cons memberId rest ih =>
    intro c
    unfold AeronCluster.createMemberPublications createIngressPublication
    cases c.member? memberId with
    | none => exact ih
    | some m =>
      simp only
      cases m.publication with
      | some pub => exact ih
      | none =>
        by_cases hc : creates c.attempts
        · simp only [hc, if_true]
          exact .head (.grant m trivial) ih
        · simp only [hc]
          exact .single .ask

end Runs

/-! ## Reading an endpoint list -/

section Endpoints

variable {exempt : Nat → Prop} {creates : Nat → Bool} {c : AeronCluster}

/-- An entry with a member's own address keeps the member and the publication it holds. -/
theorem mem_updateMemberEndpoint_of_eq
    (hids : (c.memberByIdMap.map (·.memberId)).Nodup) (hm : m ∈ c.memberByIdMap)
    (hp : m.publication = some p) : m ∈ (c.updateMemberEndpoint creates (m.memberId, m.endpoint)).memberByIdMap := by
  have hfind := member?_of_mem hids hm
  have haddress : c.addressMember m.memberId m.endpoint = c := by
    unfold AeronCluster.addressMember
    rw [hfind]
    simp
  unfold AeronCluster.updateMemberEndpoint AeronCluster.adoptLeader
  simp only [haddress, hfind, hp]
  split <;> exact hm

/-- Another address closes the member's publication and drops it. -/
theorem unheld_of_readdressed {address : Text} (h : Sound exempt c)
    (hm : m ∈ c.memberByIdMap) (hp : m.publication = some p) (hne : address ≠ m.endpoint) :
    Unheld p (c.updateMemberEndpoint creates (m.memberId, address)) := by
  have hfind := member?_of_mem h.ids hm
  have haddress : Unheld p (c.addressMember m.memberId address) := by
    unfold AeronCluster.addressMember AeronCluster.closeMember
    simp only [hfind, hne, ne_eq, not_false_eq_true, if_true, hp]
    intro x hx hxp
    rcases mem_setMember.mp hx with rfl | ⟨hx, hxm⟩
    · exact nomatch hxp
    · have hend : x ∈ (c.setMember ⟨m.memberId, address, some p⟩).memberByIdMap := hx
      rcases mem_setMember.mp hend with rfl | ⟨hx, _⟩
      · exact hxm rfl
      · exact hxm (h.held x hx m hm p hxp hp)
  unfold AeronCluster.updateMemberEndpoint
  simp only
  split
  · exact haddress.run (Nat.lt_of_lt_of_le (h.opened m hm p hp) (addressMember_run (q := True) rfl address).grows.1)
      (adoptLeader_run (q := True) rfl)
  · exact haddress

/-- The member that holds a publication loses it while a list is read exactly when some entry of
the list gives the member another address. -/
theorem unheld_foldEndpoints_iff (entries : List (Int × Text))
    (h : Sound exempt c) (hm : m ∈ c.memberByIdMap) (hp : m.publication = some p) :
    Unheld p (entries.foldl (AeronCluster.updateMemberEndpoint creates) c) ↔
      ∃ entry ∈ entries, entry.1 = m.memberId ∧ entry.2 ≠ m.endpoint := by
  induction entries generalizing c with
  | nil =>
    simp only [List.foldl_nil, List.not_mem_nil, false_and, exists_false, iff_false]
    exact fun hu => hu m hm hp
  | cons entry rest ih =>
    obtain ⟨memberId, address⟩ := entry
    have hrun : TableRun True (· = memberId) c (c.updateMemberEndpoint creates (memberId, address)) :=
      updateMemberEndpoint_run rfl
    have hnext := h.run trivial hrun
    simp only [List.foldl_cons, List.mem_cons, exists_eq_or_imp]
    by_cases hid : memberId = m.memberId
    · subst hid
      by_cases haddr : address = m.endpoint
      · subst haddr
        rw [ih hnext (mem_updateMemberEndpoint_of_eq h.ids hm hp)]
        simp
      · refine iff_of_true ?_ (Or.inl ⟨rfl, haddr⟩)
        exact (unheld_of_readdressed h hm hp haddr).run (Nat.lt_of_lt_of_le (h.opened m hm p hp) hrun.grows.1)
          (foldEndpoints_run (q := True) rest)
    · rw [ih hnext (hrun.mem (Ne.symm hid) hm)]
      simp [hid]

end Endpoints

/-! ## Sending the connect requests -/

theorem Sound.connectMembers {env : PollEnv} (ids : List Int) :
    ∀ {c : AeronCluster}, Sound exempt c → Sound exempt (c.connectMembers env ids) := by
  induction ids with
  | nil => intro c h; exact h
  | cons memberId rest ih =>
    intro c h
    unfold AeronCluster.connectMembers
    cases hf : (c.member? memberId).bind (·.publication) with
    | none => exact ih h
    | some pub =>
      obtain ⟨m, hm, hp⟩ := Option.bind_eq_some_iff.mp hf
      have hin : Sound exempt { c with ingressPub := some pub } := by
        refine h.setIngress ?_
        rintro p ⟨⟩
        exact h.opened m (mem_of_member? hm).1 pub hp
      simp only
      split
      · unfold sendConnectRequest
        simp only
        split
        · next heq =>
          obtain ⟨-, rfl⟩ := Prod.mk.inj heq
          exact hin
        · next heq =>
          obtain ⟨-, rfl⟩ := Prod.mk.inj heq
          exact ih hin
        · next heq =>
          obtain ⟨-, rfl⟩ := Prod.mk.inj heq
          exact hin
      · exact ih h

end AeronGo.Cluster
