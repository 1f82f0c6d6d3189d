import AeronGo.Laws.ChannelUri
import Mathlib.Data.List.Dedup

/-!
# Printing channel URIs

`String` prints the text of a tree whose parameters are those of the URI in the order of their keys, so what it
prints is parsed to the URI again. What was parsed from ASCII can be printed, and the text does not depend on the order in
which the map is ranged over.
-/

namespace AeronGo.ChannelUri

variable {uri : ChannelUri} {keys : List Bytes}

/-! ## The text -/

theorem params_text (p : Param) (ps : List Param) :
    (p :: ps).flatMap (fun p => p.text ++ [124]) = p.text ++ moreText ps ++ [124] := by
  induction ps generalizing p with
  | nil => rw [List.flatMap_cons, List.flatMap_nil, moreText, List.append_nil, List.append_nil]
  | cons q qs ih =>
    rw [List.flatMap_cons, ih, moreText]
    simp only [List.append_assoc, List.cons_append, List.nil_append]

theorem foldl_text (ps : List Param) (hvalues : ∀ p ∈ ps, p.value = uri.get p.key) (result : Bytes) :
    (ps.map Param.key).foldl (fun result k => result ++ (k ++ [61] ++ uri.get k ++ [124])) result =
      result ++ ps.flatMap fun p => p.text ++ [124] := by
  induction ps generalizing result with
  | nil => rw [List.map_nil, List.foldl_nil, List.flatMap_nil, List.append_nil]
  | cons p ps ih =>
    obtain ⟨hvalue, hrest⟩ := List.forall_mem_cons.mp hvalues
    rw [List.map_cons, List.foldl_cons, ih hrest, List.flatMap_cons, ← hvalue, Param.text]
    simp only [List.append_assoc, List.cons_append, List.nil_append]

/-- The parameters of a URI, in the order of their keys. -/
structure Sorted (uri : ChannelUri) (keys : List Bytes) (ps : List Param) : Prop where
  keys_eq : ps.map Param.key = keys.insertionSort (· ≤ ·)
  values : ∀ p ∈ ps, p.value = uri.get p.key

theorem exists_params (uri : ChannelUri) {ks : List Bytes} (hkeys : ∀ k ∈ ks, 61 ∉ k) (hvalues : ∀ k ∈ ks, 124 ∉ uri.get k) :
    ∃ ps : List Param, ps.map Param.key = ks ∧ ∀ p ∈ ps, p.value = uri.get p.key := by
  induction ks with
  | nil => exact ⟨[], rfl, fun _ hp => absurd hp List.not_mem_nil⟩
  | cons k ks ih =>
    obtain ⟨hkey, hkeys⟩ := List.forall_mem_cons.mp hkeys
    obtain ⟨hvalue, hvalues⟩ := List.forall_mem_cons.mp hvalues
    obtain ⟨ps, hps, hgets⟩ := ih hkeys hvalues
    exact ⟨⟨k, uri.get k, hkey, hvalue⟩ :: ps, by rw [List.map_cons, hps], List.forall_mem_cons.mpr ⟨rfl, hgets⟩⟩

variable {ps : List Param}

/-- **What is printed is the text of a tree.** -/
theorem string_text {spy : Bool} (hqualifier : uri.qualifier = if spy then spyQualifier else [])
    (hmedia : 63 ∉ uri.media ∧ 58 ∉ uri.media) (h : Sorted uri keys ps) :
    uri.string keys = Uri.text ⟨spy, uri.media, ps, hmedia⟩ := by
  have hfront : (if uri.qualifier ≠ [] then if [58].isSuffixOf uri.qualifier then uri.qualifier else uri.qualifier ++ [58]
      else []) = if spy then spyPrefix else [] := by
    rw [hqualifier]
    cases spy with
    | true => decide +kernel
    | false => rfl
  have hlength : keys.length = ps.length := by
    rw [← List.length_map Param.key, h.keys_eq, List.length_insertionSort]
  simp only [string, hfront, Uri.text, hlength, ← h.keys_eq]
  cases ps with
  | nil => simp only [List.length_nil, Nat.lt_irrefl, if_false, queryText, List.append_nil, List.append_assoc]
  | cons p ps =>
    rw [if_pos (List.length_pos_of_ne_nil (List.cons_ne_nil _ _)), foldl_text _ h.values, params_text, ← List.append_assoc, List.dropLast_concat, queryText]
    simp only [List.append_assoc, List.cons_append, List.nil_append]

/-! ## Parsing what was printed -/

/-- A URI that can be printed: its parts are ASCII and keep the separators apart. -/
structure Printable (uri : ChannelUri) : Prop where
  qualifier : uri.qualifier = [] ∨ uri.qualifier = spyQualifier
  mediaAscii : IsAscii uri.media
  mediaFree : 63 ∉ uri.media ∧ 58 ∉ uri.media
  params : ∀ k v, uri.params k = some v → IsAscii k ∧ IsAscii v ∧ 61 ∉ k ∧ 124 ∉ v

theorem lastValue_eq {f : Bytes → Bytes} (h : ∀ p ∈ ps, p.value = f p.key) (k : Bytes) :
    lastValue ps k = if k ∈ ps.map Param.key then some (f k) else none := by
  induction ps with
  | nil => rfl
  | cons p ps ih =>
    obtain ⟨hvalue, hrest⟩ := List.forall_mem_cons.mp h
    rw [lastValue, ih hrest, List.map_cons]
    by_cases hk : k = p.key
    · subst hk
      by_cases hmore : p.key ∈ ps.map Param.key <;> simp [hmore, hvalue]
    · simp [hk]

/-- ASCII parameters are stored as they are. -/
theorem params_setAll_ascii (h : ∀ p ∈ ps, IsAscii p.key ∧ IsAscii p.value) (uri : ChannelUri) (k : Bytes) :
    (setAll uri ps).params k = (lastValue ps k).or (uri.params k) := by
  induction ps generalizing uri with
  | nil => rfl
  | cons p ps ih =>
    obtain ⟨⟨hkey, hvalue⟩, hrest⟩ := List.forall_mem_cons.mp h
    rw [show setAll uri (p :: ps) = setAll (uri.set (widen p.key) (widen p.value)) ps from rfl, ih hrest, lastValue,
      widen_ascii hkey, widen_ascii hvalue]
    cases lastValue ps k with
    | some v => rfl
    | none =>
      simp only [set]
      by_cases hk : k = p.key <;> simp [hk]

theorem qualifier_setAll (uri : ChannelUri) (ps : List Param) : (setAll uri ps).qualifier = uri.qualifier := by
  induction ps generalizing uri with
  | nil => rfl
  | cons p ps ih => exact ih (uri.set (widen p.key) (widen p.value))

theorem eq_of_parts {a b : ChannelUri} (hqualifier : a.qualifier = b.qualifier) (hmedia : a.media = b.media)
    (hparams : ∀ k, a.params k = b.params k) : a = b := by
  obtain ⟨_, _, p⟩ := a
  obtain ⟨_, _, q⟩ := b
  cases hqualifier
  cases hmedia
  rw [show p = q from funext hparams]

theorem get_of_params {k v : Bytes} (h : uri.params k = some v) : uri.get k = v := by rw [get, h, Option.getD_some]

/-- **Parsing undoes printing.** -/
theorem parse_string (h : uri.Printable) (hkeys : uri.HasKeys keys) : parseChannelUri (uri.string keys) = (uri, none) := by
  have hvalue : ∀ k ∈ keys.insertionSort (· ≤ ·), uri.params k = some (uri.get k) := by
    intro k hk
    obtain ⟨v, hv⟩ := Option.isSome_iff_exists.mp ((hkeys.mem_iff k).mp ((List.mem_insertionSort _).mp hk))
    rw [get_of_params hv, hv]
  obtain ⟨ps, hps, hgets⟩ := exists_params uri (fun k hk => (h.params k _ (hvalue k hk)).2.2.1)
    (fun k hk => (h.params k _ (hvalue k hk)).2.2.2)
  obtain ⟨spy, hspy⟩ : ∃ spy : Bool, uri.qualifier = if spy then spyQualifier else [] := by
    rcases h.qualifier with hnone | hspy
    · exact ⟨false, hnone⟩
    · exact ⟨true, hspy⟩
  have hascii : ∀ p ∈ ps, IsAscii p.key ∧ IsAscii p.value := by
    intro p hp
    have hfound := h.params p.key _ (hvalue p.key (hps ▸ List.mem_map_of_mem hp))
    rw [hgets p hp]
    exact ⟨hfound.1, hfound.2.1⟩
  rw [string_text hspy h.mediaFree ⟨hps, hgets⟩, parseChannelUri_text]
  refine congrArg (·, none) (eq_of_parts ?_ ?_ fun k => ?_)
  · rw [Uri.parsed, qualifier_setAll, hspy]
  · rw [Uri.parsed, media_setAll]
    exact widen_ascii h.mediaAscii
  · have hmem : k ∈ ps.map Param.key ↔ (uri.params k).isSome := by
      rw [hps, List.mem_insertionSort, hkeys.mem_iff]
    rw [Uri.parsed, params_setAll_ascii hascii, lastValue_eq hgets]
    cases hk : uri.params k with
    | none =>
      rw [if_neg (by rw [hmem, hk]; decide)]
      rfl
    | some v =>
      rw [if_pos (hmem.mpr (by rw [hk]; rfl)), get_of_params hk]
      rfl

/-- The order in which the keys come does not show. -/
theorem string_eq {keys' : List Bytes} (hkeys : uri.HasKeys keys) (hkeys' : uri.HasKeys keys') :
    uri.string keys' = uri.string keys := by
  have hperm : keys'.Perm keys := (List.perm_ext_iff_of_nodup hkeys'.distinct hkeys.distinct).mpr fun k => by
    rw [hkeys'.mem_iff, hkeys.mem_iff]
  have hsort : keys'.insertionSort (· ≤ ·) = keys.insertionSort (· ≤ ·) := by
    have hsorted : ∀ ks : List Bytes, (ks.insertionSort (· ≤ ·)).Pairwise (· ≤ ·) :=
      fun ks => List.pairwise_insertionSort _ _
    refine List.Perm.eq_of_pairwise (fun a b _ _ hab hba => ?_) (hsorted keys') (hsorted keys) ?_
    · exact Std.Antisymm.antisymm a b hab hba
    · exact (List.perm_insertionSort _ _).trans (hperm.trans (List.perm_insertionSort _ _).symm)
  simp only [string, hperm.length_eq, hsort]

/-! ## Printing what was parsed -/

theorem isAscii_append {xs ys : Bytes} : IsAscii (xs ++ ys) ↔ IsAscii xs ∧ IsAscii ys := List.forall_mem_append

theorem isAscii_moreText (h : IsAscii (moreText ps)) : ∀ p ∈ ps, IsAscii p.key ∧ IsAscii p.value := by
  induction ps with
  | nil => exact fun _ hp => absurd hp List.not_mem_nil
  | cons p ps ih =>
    rw [moreText, isAscii_cons, isAscii_append, Param.text, isAscii_append, isAscii_cons] at h
    exact List.forall_mem_cons.mpr ⟨⟨h.2.1.1, h.2.1.2.2⟩, ih h.2.2⟩

theorem isAscii_queryText (h : IsAscii (queryText ps)) : ∀ p ∈ ps, IsAscii p.key ∧ IsAscii p.value := by
  cases ps with
  | nil => exact fun _ hp => absurd hp List.not_mem_nil
  | cons p ps =>
    apply isAscii_moreText
    rw [queryText, isAscii_cons] at h
    exact isAscii_cons.mpr ⟨by decide, h.2⟩

theorem mem_of_lastValue {k v : Bytes} (h : lastValue ps k = some v) :
    ∃ p ∈ ps, p.key = k ∧ p.value = v := by
  induction ps with
  | nil => cases h
  | cons p ps ih =>
    rw [lastValue] at h
    cases hlater : lastValue ps k with
    | some v' =>
      rw [hlater, Option.some_or] at h
      cases h
      obtain ⟨q, hq, hkey⟩ := ih hlater
      exact ⟨q, List.mem_cons_of_mem p hq, hkey⟩
    | none =>
      rw [hlater, Option.none_or] at h
      split at h
      next hk =>
        cases h
        exact ⟨p, List.mem_cons_self, hk.symm, rfl⟩
      next => cases h

theorem lastValue_isSome_iff {k : Bytes} : (lastValue ps k).isSome ↔ k ∈ ps.map Param.key := by
  induction ps with
  | nil => simp [lastValue]
  | cons p ps ih =>
    rw [lastValue, Option.isSome_or, Bool.or_eq_true, ih, List.map_cons, List.mem_cons]
    by_cases hk : k = p.key <;> simp [hk]

/-- **What is parsed from ASCII can be printed.** -/
theorem printable_of_parse {s : Bytes} (hs : IsAscii s) (h : parseChannelUri s = (uri, none)) :
    uri.Printable ∧ ∃ keys, uri.HasKeys keys := by
  obtain ⟨t, rfl⟩ := (parse_ok_iff s).mp (by rw [h])
  rw [parseChannelUri_text] at h
  cases h
  rw [Uri.text, isAscii_append, isAscii_append, isAscii_append] at hs
  have hmedia : t.parsed.media = t.media := (media_setAll _ _).trans (widen_ascii hs.2.2.1)
  have hparams : ∀ k, t.parsed.params k = lastValue t.params k := fun k =>
    (params_setAll_ascii (isAscii_queryText hs.2.2.2) _ k).trans (Option.or_none)
  refine ⟨⟨?_, ?_, ?_, ?_⟩, (t.params.map Param.key).dedup, List.nodup_dedup _, fun k => ?_⟩
  · rw [Uri.parsed, qualifier_setAll]
    cases t.spy with
    | true => exact .inr rfl
    | false => exact .inl rfl
  · rw [hmedia]
    exact hs.2.2.1
  · rw [hmedia]
    exact t.mediaFree
  · intro k v hv
    rw [hparams] at hv
    obtain ⟨p, hp, rfl, rfl⟩ := mem_of_lastValue hv
    obtain ⟨hkey, hvalue⟩ := isAscii_queryText hs.2.2.2 p hp
    exact ⟨hkey, hvalue, p.keyFree, p.valueFree⟩
  · rw [hparams, lastValue_isSome_iff, List.mem_dedup]

/-- **The round trip.** Printing and parsing give back a URI that can be printed, and what is printed of a parsed ASCII
string is its normal form. -/
theorem channelUri_round_trip :
    (∀ uri keys, Printable uri → uri.HasKeys keys → parseChannelUri (uri.string keys) = (uri, none)) ∧
    ∀ s uri, IsAscii s → parseChannelUri s = (uri, none) →
      (∃ keys, uri.HasKeys keys) ∧
      ∀ keys, uri.HasKeys keys → parseChannelUri (uri.string keys) = (uri, none) ∧
        ∀ keys', uri.HasKeys keys' → uri.string keys' = uri.string keys := by
  refine ⟨fun uri keys h hkeys => parse_string h hkeys, fun s uri hs h => ?_⟩
  obtain ⟨hprintable, hkeys⟩ := printable_of_parse hs h
  exact ⟨hkeys, fun keys hkeys => ⟨parse_string hprintable hkeys, fun keys' hkeys' => string_eq hkeys hkeys'⟩⟩

/-- A URI of `udp` with a parameter `a=1`. -/
def udp : ChannelUri := { media := utf8 "udp", params := fun k => if k = [97] then some [49] else none }

theorem udp_printable : udp.Printable := by
  refine ⟨.inl rfl, by decide +kernel, by decide +kernel, fun k v h => ?_⟩
  simp only [udp] at h
  split at h
  next hk =>
    cases h
    subst hk
    decide +kernel
  next => cases h

theorem udp_hasKeys : udp.HasKeys [[97]] := by
  refine ⟨by decide, fun k => ?_⟩
  rw [List.mem_singleton, udp]
  dsimp only
  by_cases hk : k = [97] <;> simp [hk]

/-- The URI is printed and parsed again, and so is `aeron:udp?b=2|a=1`. -/
theorem channelUri_round_trip_udp : parseChannelUri (udp.string [[97]]) = (udp, none) ∧
    ∃ uri keys, parseChannelUri (utf8 "aeron:udp?b=2|a=1") = (uri, none) ∧ uri.HasKeys keys ∧
      parseChannelUri (uri.string keys) = (uri, none) := by
  refine ⟨channelUri_round_trip.1 udp [[97]] udp_printable udp_hasKeys, ?_⟩
  have hparsed : parseChannelUri (utf8 "aeron:udp?b=2|a=1") = ((parseChannelUri (utf8 "aeron:udp?b=2|a=1")).1, none) :=
    Prod.ext rfl (by decide +kernel)
  obtain ⟨⟨keys, hkeys⟩, hnormal⟩ := channelUri_round_trip.2 _ _ (by decide +kernel) hparsed
  exact ⟨_, keys, hparsed, hkeys, (hnormal keys hkeys).1⟩

end AeronGo.ChannelUri
