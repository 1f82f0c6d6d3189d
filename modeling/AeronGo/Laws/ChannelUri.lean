import AeronGo.ChannelUri

/-!
# Laws of channel URIs

The grammar of `ChannelUri`'s comment, as trees with their text (`Uri`). The parser accepts a string
exactly when it is the text of a tree (`parse_ok_iff`), and then has every part of it as `widen` makes
it: byte by byte through `string(c)`. That is the part itself only where it is ASCII, so what the parser
gives back is the tree's own parts exactly when the media and every parameter with a value are ASCII.
-/

namespace AeronGo.ChannelUri

/-! ## The grammar -/

/-- `param = key "=" value`. -/
structure Param where
  key : Bytes
  value : Bytes
  keyFree : 61 ∉ key
  valueFree : 124 ∉ value

/-- `aeron-uri = "aeron:" media [ "?" param *( "|" param ) ]`, behind the prefix of a spy or not. -/
structure Uri where
  spy : Bool
  media : Bytes
  params : List Param
  mediaFree : 63 ∉ media ∧ 58 ∉ media

def Param.text (p : Param) : Bytes := p.key ++ 61 :: p.value

/-- The parameters behind one. -/
def moreText : List Param → Bytes
  | [] => []
  | p :: ps => 124 :: (p.text ++ moreText ps)

/-- The query, if there are parameters. -/
def queryText : List Param → Bytes
  | [] => []
  | p :: ps => 63 :: (p.text ++ moreText ps)

def Uri.text (u : Uri) : Bytes :=
  (if u.spy then spyPrefix else []) ++ (aeronPrefix ++ (u.media ++ queryText u.params))

/-- The value of a key: that of its last occurrence. -/
def lastValue : List Param → Bytes → Option Bytes
  | [], _ => none
  | p :: ps, k => (lastValue ps k).or (if k = p.key then some p.value else none)

/-! ## Characters -/

/-- A part as the parser gives it back. -/
def widen (bs : Bytes) : Bytes := bs.flatMap charString

@[simp] theorem widen_nil : widen [] = [] := rfl

@[simp] theorem widen_cons (c : UInt8) (bs : Bytes) : widen (c :: bs) = charString c ++ widen bs := rfl

/-- No character but ASCII. -/
def IsAscii (bs : Bytes) : Prop := ∀ c ∈ bs, c < 0x80

instance (bs : Bytes) : Decidable (IsAscii bs) := inferInstanceAs (Decidable (∀ c ∈ bs, c < 0x80))

variable {bs : Bytes} {c : UInt8}

theorem isAscii_cons : IsAscii (c :: bs) ↔ c < 0x80 ∧ IsAscii bs :=
  List.forall_mem_cons

theorem charString_ascii (h : c < 0x80) : charString c = [c] := if_pos h

/-- A byte that is not ASCII becomes two, the first of them not ASCII. -/
theorem charString_wide (h : ¬c < 0x80) :
    charString c = [(0xC0 : UInt8) ||| (c >>> 6), (0x80 : UInt8) ||| (c &&& 0x3F)] ∧
      ¬((0xC0 : UInt8) ||| (c >>> 6)) < 0x80 := by
  have hhigh : ∀ n : Fin 256, ¬((0xC0 : UInt8) ||| (UInt8.ofFin n >>> 6)) < 0x80 := by decide +kernel
  exact ⟨if_neg h, hhigh c.toFin⟩

/-- The code point of one encoded character. -/
def codePoint : Bytes → UInt8
  | [c] => c
  | [a, b] => (a <<< 6) ||| (b &&& 0x3F)
  | _ => 0

theorem codePoint_charString (c : UInt8) : codePoint (charString c) = c := by
  have hall : ∀ n : Fin 256, codePoint (charString (UInt8.ofFin n)) = UInt8.ofFin n := by decide +kernel
  exact hall c.toFin

theorem charString_injective : Function.Injective charString :=
  Function.LeftInverse.injective codePoint_charString

theorem length_le_widen (bs : Bytes) : bs.length ≤ (widen bs).length := by
  induction bs with
  | nil => exact Nat.le_refl 0
  | cons c bs ih =>
    rw [widen_cons, List.length_append, List.length_cons]
    by_cases hc : c < 0x80
    · rw [charString_ascii hc, List.length_singleton]
      omega
    · rw [(charString_wide hc).1, List.length_cons, List.length_singleton]
      omega

/-- What is not ASCII gets longer. -/
theorem length_lt_widen (h : ¬IsAscii bs) : bs.length < (widen bs).length := by
  induction bs with
  | nil => exact absurd nofun h
  | cons c bs ih =>
    rw [widen_cons, List.length_append, List.length_cons]
    by_cases hc : c < 0x80
    · rw [charString_ascii hc, List.length_singleton]
      have htail := ih fun hbs => h (isAscii_cons.mpr ⟨hc, hbs⟩)
      omega
    · rw [(charString_wide hc).1, List.length_cons, List.length_singleton]
      have htail := length_le_widen bs
      omega

theorem widen_ascii (h : IsAscii bs) : widen bs = bs := by
  induction bs with
  | nil => rfl
  | cons c bs ih =>
    obtain ⟨hc, hbs⟩ := isAscii_cons.mp h
    rw [widen_cons, charString_ascii hc, ih hbs]
    rfl

theorem widen_eq_self_iff (bs : Bytes) : widen bs = bs ↔ IsAscii bs := by
  constructor
  · intro h
    by_contra hwide
    exact absurd (congrArg List.length h) (Nat.ne_of_gt (length_lt_widen hwide))
  · exact widen_ascii

theorem widen_eq_nil (h : widen bs = []) : bs = [] := by
  have hle := length_le_widen bs
  rw [h] at hle
  exact List.length_eq_zero_iff.mp (Nat.le_zero.mp hle)

/-- The encoding of a character ends where its first byte says. -/
theorem widen_injective : Function.Injective widen := by
  intro xs
  induction xs with
  | nil => exact fun ys h => (widen_eq_nil h.symm).symm
  | cons c xs ih =>
    intro ys h
    cases ys with
    | nil => exact widen_eq_nil h
    | cons d ys =>
      rw [widen_cons, widen_cons] at h
      have hlength : (charString c).length = (charString d).length := by
        by_cases hc : c < 0x80
        · by_cases hd : d < 0x80
          · rw [charString_ascii hc, charString_ascii hd]
            rfl
          · rw [charString_ascii hc, (charString_wide hd).1] at h
            exact absurd ((List.cons.inj h).1 ▸ hc) (charString_wide hd).2
        · by_cases hd : d < 0x80
          · rw [(charString_wide hc).1, charString_ascii hd] at h
            exact absurd ((List.cons.inj h).1 ▸ hd) (charString_wide hc).2
          · rw [(charString_wide hc).1, (charString_wide hd).1]
            rfl
      obtain ⟨hchar, hrest⟩ := List.append_inj h hlength
      rw [charString_injective hchar, ih hrest]

/-- The other byte strings stay out of the ASCII ones. -/
theorem isAscii_of_widen (h : IsAscii (widen bs)) : IsAscii bs := by
  induction bs with
  | nil => exact nofun
  | cons c bs ih =>
    rw [widen_cons] at h
    have htail : IsAscii bs := ih fun x hx => h x (List.mem_append_right _ hx)
    refine isAscii_cons.mpr ⟨?_, htail⟩
    by_contra hc
    obtain ⟨hchar, hhigh⟩ := charString_wide hc
    rw [hchar] at h
    exact hhigh (h _ List.mem_cons_self)

/-! ## The machine on the text of a tree -/

/-- The bytes that a state takes into its value. -/
def ParseState.Stays : ParseState → UInt8 → Prop
  | .media, c => c ≠ 63 ∧ c ≠ 58
  | .paramsKey, c => c ≠ 61
  | .paramsValue, c => c ≠ 124

theorem Parser.step_stays {p : Parser} (h : p.state.Stays c) :
    p.step c = .ok { p with value := p.value ++ charString c } := by
  obtain ⟨state, value, key, uri⟩ := p
  cases state with
  | media => simp only [Parser.step, if_neg h.1, if_neg h.2]
  | paramsKey | paramsValue => exact if_neg h

/-- A part is taken byte by byte. -/
theorem Parser.run_stays (p : Parser) {part : Bytes} (h : ∀ c ∈ part, p.state.Stays c) (rest : Bytes) :
    p.run (part ++ rest) = Parser.run { p with value := p.value ++ widen part } rest := by
  induction part generalizing p with
  | nil => rw [widen_nil, List.append_nil, List.nil_append]
  | cons c part ih =>
    have hstep := Parser.step_stays (h c List.mem_cons_self)
    rw [List.cons_append, Parser.run, hstep]
    refine (ih { p with value := p.value ++ charString c } fun d hd => h d (List.mem_cons_of_mem c hd)).trans ?_
    rw [widen_cons, List.append_assoc]

variable (uri : ChannelUri)

/-- The parameters as the parser stores them. -/
def setAll (ps : List Param) : ChannelUri :=
  ps.foldl (fun uri p => uri.set (widen p.key) (widen p.value)) uri

/-- One parameter. -/
theorem run_param (key : Bytes) (p : Param) (rest : Bytes) : Parser.run ⟨.paramsKey, [], key, uri⟩ (p.text ++ rest) =
      Parser.run ⟨.paramsValue, widen p.value, widen p.key, uri⟩ rest := by
  have hkey : ∀ c ∈ p.key, ParseState.paramsKey.Stays c := fun c hc h61 => p.keyFree (h61 ▸ hc)
  have hvalue : ∀ c ∈ p.value, ParseState.paramsValue.Stays c := fun c hc h124 => p.valueFree (h124 ▸ hc)
  rw [Param.text, List.append_assoc, Parser.run_stays _ hkey]
  exact Parser.run_stays ⟨.paramsValue, [], widen p.key, uri⟩ hvalue rest

/-- From the key of a parameter to the end. -/
theorem run_params (key : Bytes) (p : Param) (ps : List Param) :
    Parser.run ⟨.paramsKey, [], key, uri⟩ (p.text ++ moreText ps) = (setAll uri (p :: ps), none) := by
  induction ps generalizing uri key p with
  | nil =>
    rw [run_param]
    rfl
  | cons q qs ih =>
    rw [run_param]
    exact ih (uri.set (widen p.key) (widen p.value)) (widen p.key) q

/-- From the media to the end. -/
theorem run_media {media : Bytes} (h : 63 ∉ media ∧ 58 ∉ media) (ps : List Param) :
    Parser.run ⟨.media, [], [], uri⟩ (media ++ queryText ps) = (setAll { uri with media := widen media } ps, none) := by
  have hmedia : ∀ c ∈ media, ParseState.media.Stays c :=
    fun c hc => ⟨fun h63 => h.1 (h63 ▸ hc), fun h58 => h.2 (h58 ▸ hc)⟩
  rw [Parser.run_stays _ hmedia]
  cases ps with
  | nil => rfl
  | cons p ps => exact run_params { uri with media := widen media } [] p ps

/-- What is parsed from the text of a tree. -/
def Uri.parsed (u : Uri) : ChannelUri :=
  setAll { qualifier := if u.spy then spyQualifier else [], media := widen u.media } u.params

theorem not_spyPrefix (rest : Bytes) : spyPrefix.isPrefixOf (aeronPrefix ++ rest) = false := by
  have hspy : spyPrefix = [97, 101, 114, 111, 110, 45, 115, 112, 121, 58] := by decide +kernel
  have haeron : aeronPrefix = [97, 101, 114, 111, 110, 58] := by decide +kernel
  rw [hspy, haeron]
  rfl

theorem parseFrom_media {media : Bytes} (h : 63 ∉ media ∧ 58 ∉ media) (ps : List Param) :
    parseFrom uri (aeronPrefix ++ (media ++ queryText ps)) = (setAll { uri with media := widen media } ps, none) := by
  rw [parseFrom, if_pos (List.isPrefixOf_iff_prefix.mpr (List.prefix_append _ _)), List.drop_left, run_media uri h ps]

/-- **The text of a tree is accepted**, with its parts widened. -/
theorem parseChannelUri_text (u : Uri) : parseChannelUri u.text = (u.parsed, none) := by
  obtain ⟨spy, media, params, mediaFree⟩ := u
  cases spy with
  | true =>
    simp only [Uri.text, parseChannelUri, if_true, List.isPrefixOf_iff_prefix, List.prefix_append, List.drop_left]
    exact parseFrom_media _ mediaFree params
  | false =>
    simp only [Uri.text, parseChannelUri, Bool.false_eq_true, if_false, List.nil_append, not_spyPrefix]
    exact parseFrom_media _ mediaFree params

/-! ## Accepted strings -/

/-- What may follow a state. -/
def Follows : ParseState → Bytes → Prop
  | .media, l => ∃ media ps, (63 ∉ media ∧ 58 ∉ media) ∧ l = media ++ queryText ps
  | .paramsKey, l => ∃ p ps, l = Param.text p ++ moreText ps
  | .paramsValue, l => ∃ value ps, 124 ∉ value ∧ l = value ++ moreText ps

/-- What the machine accepts from a state is what may follow it, by induction over the bytes. -/
theorem follows_of_run {l : Bytes} : ∀ {p : Parser}, (p.run l).2 = none → Follows p.state l := by
  induction l with
  | nil =>
    rintro ⟨state, value, key, uri⟩ h
    cases state with
    | media => exact ⟨[], [], ⟨List.not_mem_nil, List.not_mem_nil⟩, rfl⟩
    | paramsKey => cases h
    | paramsValue => exact ⟨[], [], List.not_mem_nil, rfl⟩
  | cons c l ih =>
    rintro ⟨state, value, key, uri⟩ h
    cases state with
    | media =>
      by_cases hquery : c = 63
      · subst hquery
        obtain ⟨p, ps, rfl⟩ := ih h
        exact ⟨[], p :: ps, ⟨List.not_mem_nil, List.not_mem_nil⟩, rfl⟩
      by_cases hcolon : c = 58
      · subst hcolon
        cases h
      have hstep := Parser.step_stays (p := ⟨.media, value, key, uri⟩) (c := c) ⟨hquery, hcolon⟩
      rw [Parser.run, hstep] at h
      obtain ⟨media, ps, ⟨h63, h58⟩, rfl⟩ := ih h
      exact ⟨c :: media, ps, ⟨List.not_mem_cons_of_ne_of_not_mem (Ne.symm hquery) h63,
        List.not_mem_cons_of_ne_of_not_mem (Ne.symm hcolon) h58⟩, rfl⟩
    | paramsKey =>
      by_cases hequals : c = 61
      · subst hequals
        obtain ⟨value', ps, hfree, rfl⟩ := ih h
        exact ⟨⟨[], value', List.not_mem_nil, hfree⟩, ps, rfl⟩
      have hstep := Parser.step_stays (p := ⟨.paramsKey, value, key, uri⟩) (c := c) hequals
      rw [Parser.run, hstep] at h
      obtain ⟨p, ps, rfl⟩ := ih h
      exact ⟨⟨c :: p.key, p.value, List.not_mem_cons_of_ne_of_not_mem (Ne.symm hequals) p.keyFree, p.valueFree⟩, ps, rfl⟩
    | paramsValue =>
      by_cases hbar : c = 124
      · subst hbar
        obtain ⟨p, ps, rfl⟩ := ih h
        exact ⟨[], p :: ps, List.not_mem_nil, rfl⟩
      have hstep := Parser.step_stays (p := ⟨.paramsValue, value, key, uri⟩) (c := c) hbar
      rw [Parser.run, hstep] at h
      obtain ⟨value', ps, hfree, rfl⟩ := ih h
      exact ⟨c :: value', ps, List.not_mem_cons_of_ne_of_not_mem (Ne.symm hbar) hfree, rfl⟩

theorem follows_of_parseFrom {uri : ChannelUri} {s : Bytes} (h : (parseFrom uri s).2 = none) :
    ∃ media ps, (63 ∉ media ∧ 58 ∉ media) ∧ s = aeronPrefix ++ (media ++ queryText ps) := by
  rw [parseFrom] at h
  split at h
  next hscheme =>
    obtain ⟨rest, rfl⟩ := List.isPrefixOf_iff_prefix.mp hscheme
    rw [List.drop_left] at h
    obtain ⟨media, ps, hfree, rfl⟩ := follows_of_run h
    exact ⟨media, ps, hfree, rfl⟩
  next => cases h

/-- **The parser accepts the grammar.** -/
theorem parse_ok_iff (s : Bytes) : (parseChannelUri s).2 = none ↔ ∃ u : Uri, u.text = s := by
  constructor
  · intro h
    rw [parseChannelUri] at h
    split at h
    next hspy =>
      obtain ⟨rest, rfl⟩ := List.isPrefixOf_iff_prefix.mp hspy
      rw [List.drop_left] at h
      obtain ⟨media, ps, hfree, rfl⟩ := follows_of_parseFrom h
      exact ⟨⟨true, media, ps, hfree⟩, rfl⟩
    next =>
      obtain ⟨media, ps, hfree, rfl⟩ := follows_of_parseFrom h
      exact ⟨⟨false, media, ps, hfree⟩, rfl⟩
  · rintro ⟨u, rfl⟩
    rw [parseChannelUri_text]

/-! ## What is given back -/

/-- The values by widened keys. -/
theorem params_setAll (ps : List Param) (k : Bytes) :
    (setAll uri ps).params (widen k) = ((lastValue ps k).map widen).or (uri.params (widen k)) := by
  induction ps generalizing uri with
  | nil => rfl
  | cons p ps ih =>
    rw [show setAll uri (p :: ps) = setAll (uri.set (widen p.key) (widen p.value)) ps from rfl, ih, lastValue]
    cases lastValue ps k with
    | some v => rfl
    | none =>
      by_cases hk : k = p.key
      · subst hk
        simp [set]
      · have hne : widen k ≠ widen p.key := fun h => hk (widen_injective h)
        simp [set, hk, hne]

/-- No other key has one. -/
theorem params_setAll_other (ps : List Param) {k' : Bytes} (h : ∀ k, widen k ≠ k') :
    (setAll uri ps).params k' = uri.params k' := by
  induction ps generalizing uri with
  | nil => rfl
  | cons p ps ih => exact (ih (uri.set (widen p.key) (widen p.value))).trans (if_neg fun hk => h p.key hk.symm)

theorem media_setAll (ps : List Param) : (setAll uri ps).media = uri.media := by
  induction ps generalizing uri with
  | nil => rfl
  | cons p ps ih => exact ih (uri.set (widen p.key) (widen p.value))

/-- The value that `Get` should return for a key. -/
def Uri.get (u : Uri) (k : Bytes) : Bytes := (lastValue u.params k).getD []

theorem Uri.parsed_get (u : Uri) (k : Bytes) : u.parsed.get (widen k) = widen (u.get k) := by
  rw [ChannelUri.get, Uri.parsed, params_setAll, Uri.get]
  cases lastValue u.params k with
  | none => rfl
  | some v => rfl

theorem Uri.parsed_get_other (u : Uri) {k' : Bytes} (h : ∀ k, widen k ≠ k') : u.parsed.get k' = [] := by
  rw [ChannelUri.get, Uri.parsed, params_setAll_other _ _ h]
  rfl

/-- `Media` and every `Get` are the parts of the text. -/
def Exact (u : Uri) (uri : ChannelUri) : Prop := uri.media = u.media ∧ ∀ k, uri.get k = u.get k

/-- The media, and every key that has a value with its value, are ASCII. -/
def Uri.Plain (u : Uri) : Prop := IsAscii u.media ∧ ∀ k, u.get k ≠ [] → IsAscii k ∧ IsAscii (u.get k)

/-- If every value is given back, a key that has one is ASCII: a key that is not is found, if at all, under a shorter
one that is not. -/
theorem isAscii_of_get {u : Uri} (h : ∀ k, u.parsed.get k = u.get k) :
    ∀ (n : Nat) (k : Bytes), k.length = n → u.get k ≠ [] → IsAscii k := by
  intro n
  induction n using Nat.strongRecOn with
  | _ n ih =>
    rintro k rfl hvalue
    by_cases hfound : ∃ k₀, widen k₀ = k
    · obtain ⟨k₀, rfl⟩ := hfound
      by_contra hwide
      have hk₀ : ¬IsAscii k₀ := fun hascii => hwide (by rwa [widen_ascii hascii])
      have hvalue₀ : u.get k₀ ≠ [] := by
        intro hnil
        rw [← h, Uri.parsed_get, hnil] at hvalue
        exact hvalue rfl
      exact hk₀ (ih k₀.length (length_lt_widen hk₀) k₀ rfl hvalue₀)
    · rw [← h, Uri.parsed_get_other u fun k₀ hk₀ => hfound ⟨k₀, hk₀⟩] at hvalue
      exact absurd rfl hvalue

theorem exact_parsed_iff (u : Uri) : Exact u u.parsed ↔ u.Plain := by
  constructor
  · rintro ⟨hmedia, hget⟩
    rw [Uri.parsed, media_setAll] at hmedia
    refine ⟨(widen_eq_self_iff u.media).mp hmedia, fun k hvalue => ?_⟩
    have hkey := isAscii_of_get hget k.length k rfl hvalue
    refine ⟨hkey, (widen_eq_self_iff _).mp ?_⟩
    rw [← Uri.parsed_get, hget, widen_ascii hkey]
  · rintro ⟨hmedia, hvalues⟩
    refine ⟨(media_setAll _ _).trans (widen_ascii hmedia), fun k => ?_⟩
    by_cases hfound : ∃ k₀, widen k₀ = k
    · obtain ⟨k₀, rfl⟩ := hfound
      rw [Uri.parsed_get]
      by_cases hvalue₀ : u.get k₀ = []
      · rw [hvalue₀, widen_nil]
        -- a value under the widened key would make it ASCII, and so the key itself
        by_contra hvalue
        obtain ⟨hascii, _⟩ := hvalues (widen k₀) (Ne.symm hvalue)
        rw [widen_ascii (isAscii_of_widen hascii)] at hvalue
        exact hvalue hvalue₀.symm
      · obtain ⟨hkey, hascii⟩ := hvalues k₀ hvalue₀
        rw [widen_ascii hascii, widen_ascii hkey]
    · rw [Uri.parsed_get_other u fun k₀ hk₀ => hfound ⟨k₀, hk₀⟩]
      by_contra hvalue
      obtain ⟨hascii, _⟩ := hvalues k (Ne.symm hvalue)
      exact hfound ⟨k, widen_ascii hascii⟩

/-- **`ParseChannelUri` implements the grammar, and gives the parts back, exactly on the strings that are plain where
it matters.** Which strings it accepts is right for every string. -/
theorem parseChannelUri_exact_iff (s : Bytes) :
    (((parseChannelUri s).2 = none ↔ ∃ u : Uri, u.text = s) ∧ ∀ u : Uri, u.text = s → Exact u (parseChannelUri s).1) ↔
      ∀ u : Uri, u.text = s → u.Plain := by
  constructor
  · rintro ⟨_, hexact⟩ u rfl
    have hu := hexact u rfl
    rw [parseChannelUri_text] at hu
    exact (exact_parsed_iff u).mp hu
  · intro hplain
    refine ⟨parse_ok_iff s, ?_⟩
    rintro u rfl
    rw [parseChannelUri_text]
    exact (exact_parsed_iff u).mpr (hplain u rfl)

/-- A URI whose alias is an umlaut. -/
def umlautUri : Uri where
  spy := false
  media := utf8 "udp"
  params := [⟨utf8 "alias", utf8 "ü", by decide +kernel, by decide +kernel⟩]
  mediaFree := by decide +kernel

/-- It is accepted, and the alias comes back as two other characters. -/
theorem parseChannelUri_mangles :
    umlautUri.text = utf8 "aeron:udp?alias=ü" ∧ (parseChannelUri umlautUri.text).2 = none ∧
      umlautUri.get (utf8 "alias") = utf8 "ü" ∧
      (parseChannelUri umlautUri.text).1.get (utf8 "alias") = utf8 "Ã¼" ∧ utf8 "Ã¼" ≠ utf8 "ü" := by
  decide +kernel

end AeronGo.ChannelUri
