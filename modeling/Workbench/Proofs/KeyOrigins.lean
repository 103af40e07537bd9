import Mathlib.Tactic.SplitIfs
import Workbench.Asset.Site
import Workbench.Proofs.Granted

set_option autoImplicit false

/-! # Origins of keys

Which site a key is asked from. A key that is no URL is read, without the slashes that it begins
with, as seen from the address of the site. That stays on the site as long as what is left names
neither another scheme nor, after two slashes, a host: then the key is never refused. What names one
of these is asked from where it says, and the address counts no more. -/

namespace Workbench

namespace Url

variable {u v base : Url} {s : List Char}

/-- Where a URL is asked from: its scheme, its host and its port. -/
def origin (u : Url) : String × Option String × Option Nat := (u.scheme, u.host, u.port)

/-- A URL with a path of segments. -/
def Hierarchical (u : Url) : Prop := ∃ segments, u.path = .segments segments

/-! ## What reading keeps -/

/-- Queries and fragments change nothing else. -/
theorem exists_readTail (u : Url) (s : List Char) :
    ∃ query fragment, readTail u s = { u with query := query, fragment := fragment } := by
  unfold readTail
  dsimp only
  split
  · exact ⟨_, _, rfl⟩
  · exact ⟨u.query, _, rfl⟩

@[simp] theorem scheme_readTail (u : Url) (s : List Char) : (readTail u s).scheme = u.scheme := by
  obtain ⟨query, fragment, h⟩ := exists_readTail u s
  rw [h]

@[simp] theorem path_readTail (u : Url) (s : List Char) : (readTail u s).path = u.path := by
  obtain ⟨query, fragment, h⟩ := exists_readTail u s
  rw [h]

@[simp] theorem origin_readTail (u : Url) (s : List Char) : (readTail u s).origin = u.origin := by
  obtain ⟨query, fragment, h⟩ := exists_readTail u s
  rw [h]
  rfl

@[simp] theorem scheme_readPath (u : Url) (segments : List String) (s : List Char) :
    (readPath u segments s).scheme = u.scheme := by rw [readPath, scheme_readTail]

@[simp] theorem origin_readPath (u : Url) (segments : List String) (s : List Char) :
    (readPath u segments s).origin = u.origin := by
  rw [readPath, origin_readTail]
  rfl

theorem hierarchical_readPath (u : Url) (segments : List String) (s : List Char) :
    (readPath u segments s).Hierarchical := by
  rw [Hierarchical, readPath, path_readTail]
  exact ⟨_, rfl⟩

theorem scheme_readAfterHost (u : Url) (s : List Char) :
    (readAfterHost u s).scheme = u.scheme := by
  unfold readAfterHost
  split_ifs with hslash hspecial
  · exact scheme_readPath u [] _
  · exact scheme_readPath u [] s
  · exact scheme_readTail u s

theorem hierarchical_readAfterHost (h : isSpecial u.scheme = true) (s : List Char) :
    (readAfterHost u s).Hierarchical := by
  unfold readAfterHost
  split_ifs with hslash
  · exact hierarchical_readPath u [] _
  · exact hierarchical_readPath u [] s

/-- What was read after a scheme is of this scheme, and of segments if that is one of the web. -/
structure ReadAs (scheme : String) (v : Url) : Prop where
  scheme_eq : v.scheme = scheme
  hierarchical : isSpecial scheme = true → v.Hierarchical

theorem readAs_readPath {scheme : String} (hu : u.scheme = scheme) (segments : List String)
    (s : List Char) : ReadAs scheme (readPath u segments s) :=
  ⟨(scheme_readPath u segments s).trans hu, fun _ => hierarchical_readPath u segments s⟩

theorem readAs_readAfterHost {scheme : String} (hu : u.scheme = scheme) (s : List Char) :
    ReadAs scheme (readAfterHost u s) :=
  ⟨(scheme_readAfterHost u s).trans hu, fun h => hierarchical_readAfterHost (hu ▸ h) s⟩

theorem readAs_of_readAuthority (h : readAuthority u s = .ok v) : ReadAs u.scheme v := by
  unfold readAuthority at h
  obtain ⟨-, h⟩ := check_eq_ok_iff.1 h
  obtain ⟨host, -, h⟩ := bind_eq_ok_iff.1 h
  obtain ⟨port, -, h⟩ := bind_eq_ok_iff.1 h
  rw [← pure_eq_ok_iff.1 h]
  exact readAs_readAfterHost (by rfl) _

theorem readAs_of_readFileHost (h : readFileHost u s = .ok v) : ReadAs u.scheme v := by
  unfold readFileHost at h
  dsimp only at h
  split_ifs at h with hdrive hempty
  · rw [← pure_eq_ok_iff.1 h]
    exact readAs_readPath (by rfl) _ _
  · rw [← pure_eq_ok_iff.1 h]
    exact readAs_readAfterHost (by rfl) _
  · obtain ⟨host, -, h⟩ := bind_eq_ok_iff.1 h
    rw [← pure_eq_ok_iff.1 h]
    exact readAs_readAfterHost (by rfl) _

theorem readAs_of_readFile (h : readFile none s = .ok v) : ReadAs "file" v := by
  unfold readFile at h
  dsimp only at h
  split_ifs at h with hslash hhost
  · exact readAs_of_readFileHost h
  · rw [← Except.ok.inj h]
    exact readAs_readPath (by rfl) _ _
  · rw [← Except.ok.inj h]
    exact readAs_readPath (by rfl) _ _

theorem readAs_of_readScheme {scheme : String} (h : readScheme none scheme s = .ok v) :
    ReadAs scheme v := by
  unfold readScheme at h
  by_cases hspecial : isSpecial scheme = true
  · rw [if_pos hspecial] at h
    exact readAs_of_readAuthority h
  · rw [if_neg hspecial] at h
    split at h
    · exact readAs_of_readAuthority h
    · rw [← Except.ok.inj h]
      exact readAs_readPath (by rfl) _ _
    · rw [← Except.ok.inj h]
      exact ⟨by simp [ofScheme], fun hno => absurd hno hspecial⟩

/-- A text that is a URL by itself begins with its scheme. -/
theorem scheme?_of_parse {text : String} (h : parse text = .ok v) :
    ∃ scheme rest, scheme? (clean text) = some (scheme, rest) ∧ ReadAs scheme v := by
  unfold parse read at h
  dsimp only at h
  split at h
  · next rest hscheme => exact ⟨_, _, hscheme, readAs_of_readFile h⟩
  · next scheme rest hother hscheme => exact ⟨_, _, hscheme, readAs_of_readScheme h⟩
  · cases h
  · next hbase => cases hbase

/-! ## Reading as seen from a URL of the web -/

/-- A URL that a site may have: its scheme is one of the web, but not that of files. -/
structure Web (u : Url) : Prop where
  special : isSpecial u.scheme = true
  notFile : u.scheme ≠ "file"
  hierarchical : u.Hierarchical

theorem web_of_parse {text : String} (h : parse text = .ok u)
    (hscheme : u.scheme = "http" ∨ u.scheme = "https") : u.Web := by
  have hspecial : isSpecial u.scheme = true := by
    rcases hscheme with hscheme | hscheme <;> rw [hscheme] <;> decide
  have hfile : u.scheme ≠ "file" := by
    rcases hscheme with hscheme | hscheme <;> rw [hscheme] <;> decide
  obtain ⟨scheme, rest, -, hread⟩ := scheme?_of_parse h
  exact ⟨hspecial, hfile, hread.hierarchical (hread.scheme_eq ▸ hspecial)⟩

/-- Whether a text begins with two slashes of either kind, so that a host follows. -/
def opensHost (s : List Char) : Bool :=
  match s with
  | a :: b :: _ => (a == '/' || a == '\\') && (b == '/' || b == '\\')
  | _ => false

theorem startsWithSlash_cons {scheme : String} (h : isSpecial scheme = true) (c : Char)
    (s : List Char) : startsWithSlash scheme (c :: s) = (c == '/' || c == '\\') := by
  rw [startsWithSlash, normalSlashes, if_pos h]
  by_cases hc : c = '\\'
  · simp [hc]
  · simp [hc, Bool.beq_eq_decide_eq]

theorem opensHost_eq {scheme : String} (h : isSpecial scheme = true) (s : List Char) :
    opensHost s = (startsWithSlash scheme s && startsWithSlash scheme (s.drop 1)) := by
  have hnil : startsWithSlash scheme [] = false := by simp [startsWithSlash, normalSlashes]
  cases s with
  | nil => simp [opensHost, hnil]
  | cons a s =>
    cases s with
    | nil => simp [opensHost, hnil]
    | cons b s => simp [opensHost, startsWithSlash_cons h]

/-- A text that opens a host is read without the URL that it is seen from, but for its scheme. -/
theorem readRelative_of_opensHost (h : isSpecial base.scheme = true) (hs : opensHost s = true) :
    readRelative base s = readAuthority (ofScheme base.scheme)
      (s.dropWhile (startsWithSlash base.scheme [·])) := by
  rw [opensHost_eq h, Bool.and_eq_true] at hs
  unfold readRelative
  dsimp only
  rw [if_pos hs.1, if_pos hs.2, if_pos h]
  -- the first slash is dropped with all that follow it
  cases s with
  | nil => rfl
  | cons a s =>
    have ha : startsWithSlash base.scheme [a] = true := by
      rw [startsWithSlash_cons h, ← startsWithSlash_cons h a s]
      exact hs.1
    rw [List.dropWhile_cons_of_pos (by simpa using ha), List.drop_one, List.tail_cons]

/-- Any other stays where it is seen from. -/
theorem exists_readRelative (h : isSpecial base.scheme = true) (hs : opensHost s = false) :
    ∃ v, readRelative base s = .ok v ∧ v.origin = base.origin := by
  rw [opensHost_eq h] at hs
  unfold readRelative
  dsimp only
  split_ifs with hslash hhost
  · rw [hslash, hhost] at hs
    cases hs
  · exact ⟨_, rfl, origin_readPath _ _ _⟩
  · split
    · exact ⟨_, rfl, rfl⟩
    · exact ⟨_, rfl, origin_readTail _ _⟩
    · exact ⟨_, rfl, origin_readTail _ _⟩
    · exact ⟨_, rfl, origin_readPath _ _ _⟩

variable {text scheme : String} {rest : List Char}

/-- A text with another scheme stands for itself. -/
theorem join_of_scheme? (hs : scheme? (clean text) = some (scheme, rest))
    (hne : scheme ≠ base.scheme) : base.join text = parse text := by
  have hother : (some base).filter (·.scheme = scheme) = none := by
    rw [Option.filter_some, if_neg (by simpa using Ne.symm hne)]
  unfold join parse read
  dsimp only
  rw [hs]
  -- files are read in a way of their own
  by_cases hfile : scheme = "file"
  · subst hfile
    simp only [hother]
    rfl
  · simp only [readScheme, hother]
    rfl

theorem parse_of_scheme? (hfile : scheme ≠ "file") (h : isSpecial scheme = true)
    (hs : scheme? (clean text) = some (scheme, rest)) : parse text =
      readAuthority (ofScheme scheme) (rest.dropWhile (startsWithSlash scheme [·])) := by
  unfold parse read
  dsimp only
  rw [hs]
  simp only [readScheme, if_pos h, Option.filter_none]

/-- A text without a scheme is read as it is. -/
theorem join_of_scheme?_eq_none (hbase : base.Web)
    (hs : scheme? (clean text) = none) : base.join text = readRelative base (clean text) := by
  obtain ⟨segments, hsegments⟩ := hbase.hierarchical
  unfold join read
  dsimp only
  rw [hs]
  simp only [hsegments, if_neg hbase.notFile]

/-- A text with the scheme that it is seen from is read behind it; two slashes open a host. -/
theorem join_of_own_scheme (hbase : base.Web)
    (hs : scheme? (clean text) = some (base.scheme, rest)) : base.join text =
      if opensHost rest then readAuthority (ofScheme base.scheme)
        (rest.dropWhile (startsWithSlash base.scheme [·]))
      else readRelative base rest := by
  have hfile := hbase.notFile
  have hown : (some base).filter (·.scheme = base.scheme) = some base := by
    rw [Option.filter_some, if_pos (by simp)]
  have hread : base.join text = if "//".toList.isPrefixOf rest then
      readAuthority (ofScheme base.scheme) (rest.dropWhile (startsWithSlash base.scheme [·]))
      else readRelative base rest := by
    unfold join read
    dsimp only
    rw [hs]
    simp only [readScheme, hown, if_pos hbase.special]
  rw [hread]
  by_cases hopens : opensHost rest = true
  · rw [if_pos hopens, readRelative_of_opensHost hbase.special hopens, ite_self]
  · rw [if_neg hopens, if_neg]
    -- two plain slashes are two slashes
    intro hprefix
    obtain ⟨others, rfl⟩ := List.isPrefixOf_iff_prefix.1 hprefix
    exact hopens rfl

/-- What begins with a character that can be seen still does without what is left out. -/
theorem exists_clean_eq_cons {c : Char} (hc : text.toList.head? = some c) (hedge : ¬ c ≤ ' ')
    (hkept : c ≠ '\t' ∧ c ≠ '\n' ∧ c ≠ '\r') : ∃ rest, clean text = c :: rest := by
  obtain ⟨others, htext⟩ := List.head?_eq_some_iff.1 hc
  have hend := Text.dropEndWhile_append_cons (p := fun c => decide (c ≤ ' '))
    (decide_eq_false hedge) [] others
  rw [List.nil_append, List.nil_append] at hend
  unfold clean
  dsimp only
  rw [htext, List.dropWhile_cons_of_neg (by simpa using hedge), hend,
    List.filter_cons_of_pos (by simpa using hkept)]
  exact ⟨_, rfl⟩

/-- Whether a text names where it is to be asked from, as seen from a URL with some scheme of the
    web: another scheme, or a host. -/
def namesOrigin (scheme : String) (s : List Char) : Bool :=
  match scheme? s with
  | none => opensHost s
  | some (other, rest) => other != scheme || opensHost rest

theorem namesOrigin_of_none (h : scheme? s = none) : namesOrigin scheme s = opensHost s := by
  rw [namesOrigin, h]

theorem namesOrigin_of_some {other : String} (h : scheme? s = some (other, rest)) :
    namesOrigin scheme s = (other != scheme || opensHost rest) := by
  rw [namesOrigin, h]

end Url

namespace Asset.Site

open Url

/-- What a key says without the slashes that it begins with. -/
def bare (key : String) : String := String.ofList (key.toList.dropWhile (· == '/'))

/-- A key of the store is no URL. -/
theorem parse_of_slash {key : String} (h : key.toList.head? = some '/') :
    Url.parse key = .error .relative := by
  obtain ⟨rest, hclean⟩ := exists_clean_eq_cons h (by decide) (by decide)
  have hscheme : scheme? (clean key) = none := by
    rw [hclean, scheme?, List.dropWhile_cons_of_neg (by decide)]
    rfl
  unfold Url.parse Url.read
  dsimp only
  rw [hscheme]

theorem resolve_of_error (base : Url) {key : String} {e : Url.Error}
    (h : Url.parse key = .error e) :
    resolve base key = (base.join (bare key)).mapError fun _ => .invalidKey key := by
  rw [resolve, h]
  rfl

theorem error_of_resolve {base : Url} {key : String} {e : Error} (h : resolve base key = .error e) :
    e = .invalidKey key := by
  cases hparse : Url.parse key with
  | ok u =>
    rw [resolve, hparse] at h
    cases h
  | error cause =>
    rw [resolve_of_error base hparse] at h
    cases hjoin : base.join (bare key) with
    | ok u =>
      rw [hjoin] at h
      cases h
    | error cause =>
      rw [hjoin] at h
      exact (Except.error.inj h).symm

variable {base : Url} {key : String}

/-- A key that names no origin stays on the site. -/
theorem exists_join_bare (hbase : base.Web)
    (hnames : namesOrigin base.scheme (clean (bare key)) = false) :
    ∃ u, base.join (bare key) = .ok u ∧ u.origin = base.origin := by
  cases hscheme : scheme? (clean (bare key)) with
  | none =>
    rw [namesOrigin_of_none hscheme] at hnames
    rw [join_of_scheme?_eq_none hbase hscheme]
    exact exists_readRelative hbase.special hnames
  | some found =>
    obtain ⟨other, rest⟩ := found
    rw [namesOrigin_of_some hscheme, Bool.or_eq_false_iff, bne_eq_false_iff_eq] at hnames
    obtain ⟨rfl, hopens⟩ := hnames
    rw [join_of_own_scheme hbase hscheme, hopens, if_neg Bool.false_ne_true]
    exact exists_readRelative hbase.special hopens

/-- A key that names an origin is read without the address, but for its scheme. -/
theorem join_bare_congr {other : Url} (hbase : base.Web) (hother : other.Web)
    (hsame : other.scheme = base.scheme)
    (hnames : namesOrigin base.scheme (clean (bare key)) = true) :
    other.join (bare key) = base.join (bare key) := by
  cases hscheme : scheme? (clean (bare key)) with
  | none =>
    rw [namesOrigin_of_none hscheme] at hnames
    rw [join_of_scheme?_eq_none hbase hscheme, join_of_scheme?_eq_none hother hscheme,
      readRelative_of_opensHost hbase.special hnames,
      readRelative_of_opensHost hother.special hnames, hsame]
  | some found =>
    obtain ⟨named, rest⟩ := found
    by_cases hown : named = base.scheme
    · subst hown
      rw [namesOrigin_of_some hscheme, bne_self_eq_false, Bool.false_or] at hnames
      rw [join_of_own_scheme hbase hscheme, join_of_own_scheme hother (hsame ▸ hscheme),
        if_pos hnames, if_pos hnames, hsame]
    · rw [join_of_scheme? hscheme hown, join_of_scheme? hscheme (hsame ▸ hown)]

/-- A key that names a scheme, and with the scheme of the address also a host, is read as the URL
    that stands behind its slashes. -/
theorem join_bare_of_scheme? {named : String} {rest : List Char} (hbase : base.Web)
    (hnames : namesOrigin base.scheme (clean (bare key)) = true)
    (hscheme : scheme? (clean (bare key)) = some (named, rest)) :
    base.join (bare key) = Url.parse (bare key) := by
  by_cases hown : named = base.scheme
  · subst hown
    rw [namesOrigin_of_some hscheme, bne_self_eq_false, Bool.false_or] at hnames
    rw [join_of_own_scheme hbase hscheme, if_pos hnames,
      parse_of_scheme? hbase.notFile hbase.special hscheme]
  · exact join_of_scheme? hscheme hown

/-- A key that is no URL, as those of the store are, stays on the site unless it names an origin. If
    it does, all that the address counts for is its scheme, and a key that names its scheme too is
    asked from where the URL behind the slashes says. -/
theorem resolve_origin {text : String} {base : Url} (hbase : Url.parse text = .ok base)
    (hweb : base.scheme = "http" ∨ base.scheme = "https") (key : String) :
    (key.toList.head? = some '/' → Url.parse key = .error .relative) ∧
    (∀ e, resolve base key = .error e → e = .invalidKey key) ∧
    ∀ e, Url.parse key = .error e →
      (namesOrigin base.scheme (clean (bare key)) = false →
        ∃ u, resolve base key = .ok u ∧ u.origin = base.origin) ∧
      (namesOrigin base.scheme (clean (bare key)) = true →
        (∀ (text' : String) (other : Url), Url.parse text' = .ok other →
          other.scheme = base.scheme → resolve other key = resolve base key) ∧
        ∀ named rest, scheme? (clean (bare key)) = some (named, rest) →
          resolve base key = (Url.parse (bare key)).mapError (fun _ => .invalidKey key) ∧
          ∀ u, resolve base key = .ok u → u.scheme = named) := by
  have hsite := web_of_parse hbase hweb
  refine ⟨parse_of_slash, fun e => error_of_resolve, fun e hkey => ⟨fun hnames => ?_, fun hnames =>
    ⟨fun text' other hother hsame => ?_, fun named rest hscheme => ?_⟩⟩⟩
  · obtain ⟨u, hjoin, horigin⟩ := exists_join_bare hsite hnames
    rw [resolve_of_error base hkey, hjoin]
    exact ⟨u, rfl, horigin⟩
  · have hsite' := web_of_parse hother (hsame ▸ hweb)
    rw [resolve_of_error other hkey, resolve_of_error base hkey,
      join_bare_congr hsite hsite' hsame hnames]
  · have hresolve := resolve_of_error base hkey
    rw [join_bare_of_scheme? hsite hnames hscheme] at hresolve
    refine ⟨hresolve, fun u hu => ?_⟩
    cases hparse : Url.parse (bare key) with
    | error cause =>
      rw [hresolve, hparse] at hu
      cases hu
    | ok v =>
      rw [hresolve, hparse] at hu
      obtain rfl := Except.ok.inj hu
      obtain ⟨scheme, others, hscheme', hread⟩ := scheme?_of_parse hparse
      rw [hscheme] at hscheme'
      rw [hread.scheme_eq, (Prod.mk.inj (Option.some.inj hscheme')).1]

theorem resolve_origin_playground :
    ∃ base, Url.parse "https://play.example/app/" = .ok base ∧ base.scheme = "https" ∧
      namesOrigin "https" (clean (bare "/https:..\\x://y")) = false ∧
      (∃ u, resolve base "/https:..\\x://y" = .ok u ∧
        u.origin = ("https", some "play.example", none)) ∧
      namesOrigin "https" (clean (bare "/\t/\\cdn.example/x")) = true ∧
      (∃ other, Url.parse "https://other.example:8080/" = .ok other ∧
        resolve other "/\t/\\cdn.example/x" = resolve base "/\t/\\cdn.example/x") := by
  obtain ⟨base, hbase, hscheme, horigin⟩ : ∃ base,
      Url.parse "https://play.example/app/" = .ok base ∧ base.scheme = "https" ∧
        base.origin = ("https", some "play.example", none) :=
    ⟨⟨"https", "", "", some "play.example", none, .segments ["app", ""], none, none⟩,
      toOption_eq_some_iff.1 (by decide +kernel), rfl, rfl⟩
  have hother : Url.parse "https://other.example:8080/" =
      .ok ⟨"https", "", "", some "other.example", some 8080, .segments [""], none, none⟩ :=
    toOption_eq_some_iff.1 (by decide +kernel)
  have hstays : namesOrigin "https" (clean (bare "/https:..\\x://y")) = false := by decide +kernel
  have hleaves : namesOrigin "https" (clean (bare "/\t/\\cdn.example/x")) = true := by
    decide +kernel
  obtain ⟨hparse, -, hrest⟩ := resolve_origin hbase (.inr hscheme) "/https:..\\x://y"
  obtain ⟨hparse', -, hrest'⟩ := resolve_origin hbase (.inr hscheme) "/\t/\\cdn.example/x"
  refine ⟨base, hbase, hscheme, hstays, ?_, hleaves, _, hother, ?_⟩
  · rw [← horigin]
    exact (hrest _ (hparse (by decide))).1 (hscheme ▸ hstays)
  · exact ((hrest' _ (hparse' (by decide))).2 (hscheme ▸ hleaves)).1 _ _ hother hscheme.symm

theorem exists_resolve_elsewhere : ¬ ∀ (text key : String) (base : Url),
    Url.parse text = .ok base → base.scheme = "http" ∨ base.scheme = "https" →
    key.toList.head? = some '/' →
    resolve base key = .error (.invalidKey key) ∨
      ∃ u, resolve base key = .ok u ∧ u.origin = base.origin := by
  intro hclaim
  have hbase : Url.parse "https://play.example/app/" =
      .ok ⟨"https", "", "", some "play.example", none, .segments ["app", ""], none, none⟩ :=
    toOption_eq_some_iff.1 (by decide +kernel)
  have hresolve : resolve ⟨"https", "", "", some "play.example", none, .segments ["app", ""], none,
      none⟩ "/https://evil.example/x" = .ok ⟨"https", "", "", some "evil.example", none,
        .segments ["x"], none, none⟩ := toOption_eq_some_iff.1 (by decide +kernel)
  rcases hclaim _ "/https://evil.example/x" _ hbase (.inr rfl) (by decide) with
    herror | ⟨u, hu, horigin⟩
  · rw [hresolve] at herror
    cases herror
  · rw [hresolve] at hu
    rw [← Except.ok.inj hu] at horigin
    exact absurd horigin (by decide)

end Asset.Site

end Workbench
