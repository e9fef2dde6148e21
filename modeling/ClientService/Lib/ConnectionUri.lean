import Mathlib

/-!
# Connection URIs

`postgresql://[user[:password]@][netloc][:port][,...][/dbname][?param1=value1&...]`, read from left
to right: a part ends at the first delimiter that may come after it, and is decoded from percent
encoding then. What is left out is empty. The part before an `@` is there when no `/` comes first,
and a `netloc` in brackets ends at the bracket.

## Main definitions

* `ConnectionUri.decode` — percent-decoding.
* `ConnectionUri.parse` — the parts of a URI.
-/

namespace ConnectionUri

abbrev percent : UInt8 := 0x25
abbrev ampersand : UInt8 := 0x26
abbrev comma : UInt8 := 0x2C
abbrev slash : UInt8 := 0x2F
abbrev colon : UInt8 := 0x3A
abbrev equals : UInt8 := 0x3D
abbrev question : UInt8 := 0x3F
abbrev atSign : UInt8 := 0x40
abbrev leftBracket : UInt8 := 0x5B
abbrev rightBracket : UInt8 := 0x5D

/-- The bytes of an ASCII text. -/
def ascii (s : List Char) : List UInt8 := s.map fun c => UInt8.ofNat c.toNat

/-! ## Percent encoding -/

def hexdigit (c : UInt8) : Option ℕ :=
  if 0x30 ≤ c ∧ c ≤ 0x39 then some (c.toNat - 0x30)
  else if 0x41 ≤ c ∧ c ≤ 0x46 then some (c.toNat - 0x41 + 10)
  else if 0x61 ≤ c ∧ c ≤ 0x66 then some (c.toNat - 0x61 + 10)
  else none

/-- The byte of an encoded token. It is not zero. -/
def token (hi lo : UInt8) : Option UInt8 := do
  let h ← hexdigit hi
  let l ← hexdigit lo
  if 16 * h + l = 0 then none else some (UInt8.ofNat (16 * h + l))

def decode : List UInt8 → Option (List UInt8)
  | [] => some []
  | c :: s =>
      if c = percent then
        match s with
        | hi :: lo :: rest => (token hi lo).bind fun b => (decode rest).map (b :: ·)
        | _ => none
      else (decode s).map (c :: ·)

/-! ## The grammar -/

/-- The byte is none of these delimiters. -/
def free (ds : List UInt8) (c : UInt8) : Bool := decide (c ∉ ds)

structure Parts where
  user : List UInt8
  password : List UInt8
  host : List UInt8
  port : List UInt8
  dbname : List UInt8
  params : List (List UInt8 × List UInt8)
  deriving DecidableEq, Repr

/-- `[user[:password]@]`, and what is left. -/
def credentials (s : List UInt8) : (List UInt8 × List UInt8) × List UInt8 :=
  let info := s.takeWhile (free [atSign, slash])
  match s.dropWhile (free [atSign, slash]) with
  | [] => (([], []), s)
  | c :: rest =>
      if c = atSign then
        ((info.takeWhile (free [colon]), (info.dropWhile (free [colon])).drop 1), rest)
      else (([], []), s)

/-- One `netloc`, and what is left. -/
def netloc : List UInt8 → Option (List UInt8 × List UInt8)
  | [] => some ([], [])
  | c :: s =>
      if c = leftBracket then
        match s.dropWhile (free [rightBracket]) with
        | [] => none
        | _ :: rest =>
            if s.takeWhile (free [rightBracket]) = [] then none
            else if ∀ d ∈ rest.head?, d ∈ [colon, slash, question, comma] then
              some (s.takeWhile (free [rightBracket]), rest)
            else none
      else some ((c :: s).takeWhile (free [colon, slash, question, comma]),
        (c :: s).dropWhile (free [colon, slash, question, comma]))

/-- `[:port]`, and what is left. -/
def port : List UInt8 → List UInt8 × List UInt8
  | [] => ([], [])
  | c :: s =>
      if c = colon then
        (s.takeWhile (free [slash, question, comma]), s.dropWhile (free [slash, question, comma]))
      else ([], c :: s)

/-- `[netloc][:port][,...]` with at most `n` hosts: the hosts and the ports, both with commas
between them, and what is left. -/
def netlocs : ℕ → List UInt8 → Option (List UInt8 × List UInt8 × List UInt8)
  | 0, _ => none
  | n + 1, s => do
      let (host, rest) ← netloc s
      if (port rest).2.head? = some comma then
        let (hosts, ports, rest') ← netlocs n ((port rest).2.drop 1)
        some (host ++ comma :: hosts, (port rest).1 ++ comma :: ports, rest')
      else some (host, (port rest).1, (port rest).2)

/-- `[/dbname]`, and what is left. -/
def path : List UInt8 → List UInt8 × List UInt8
  | [] => ([], [])
  | c :: s =>
      if c = slash then (s.takeWhile (free [question]), s.dropWhile (free [question]))
      else ([], c :: s)

/-- `param1=value1`. -/
def param (s : List UInt8) : Option (List UInt8 × List UInt8) :=
  match s.splitOn equals with
  | [keyword, value] => (decode keyword).bind fun k => (decode value).map fun v => (k, v)
  | _ => none

/-- `[?param1=value1&...]`. -/
def query (s : List UInt8) : Option (List (List UInt8 × List UInt8)) :=
  if s.drop 1 = [] then some [] else ((s.drop 1).splitOn ampersand).mapM param

/-- What comes before the parts. -/
def scheme : List UInt8 := ascii "postgresql://".toList

def parse (uri : List UInt8) : Option Parts := do
  let s ← if scheme.isPrefixOf uri then some (uri.drop scheme.length) else none
  let user ← decode (credentials s).1.1
  let password ← decode (credentials s).1.2
  let (hosts, ports, rest) ← netlocs ((credentials s).2.length + 1) (credentials s).2
  let host ← decode hosts
  let port ← decode ports
  let dbname ← decode (path rest).1
  let params ← query (path rest).2
  some ⟨user, password, host, port, dbname, params⟩

example : parse (ascii "postgresql://u:p%40@[::1]:1/d?a=b&c=d".toList) =
    some ⟨ascii ['u'], ascii ['p', '@'], ascii "::1".toList, ascii ['1'], ascii ['d'],
      [(ascii ['a'], ascii ['b']), (ascii ['c'], ascii ['d'])]⟩ := by decide +kernel

/-! ## What decoding does -/

section
variable {s t x raw ds : List UInt8} {c : UInt8}

theorem decode_cons (h : c ≠ percent) (s : List UInt8) :
    decode (c :: s) = (decode s).map (c :: ·) := by
  rw [decode.eq_def (c :: s)]
  simp only [if_neg h]

/-- A text without a percent sign stays. -/
theorem decode_of_notMem (h : percent ∉ s) : decode s = some s := by
  induction s with
  | nil => rfl
  | cons c s ih =>
      rw [List.mem_cons, not_or] at h
      rw [decode_cons (Ne.symm h.1), ih h.2, Option.map_some]

/-- Decoding never makes a text longer, and shorter when there is a percent sign. -/
theorem length_decode (h : decode s = some x) :
    x.length ≤ s.length ∧ (percent ∈ s → x.length < s.length) := by
  fun_induction decode s generalizing x with
  | case1 =>
      cases h
      simp
  | case2 hi lo rest ih =>
      obtain ⟨b, -, h⟩ := Option.bind_eq_some_iff.mp h
      obtain ⟨y, hy, rfl⟩ := Option.map_eq_some_iff.mp h
      have hrest := (ih hy).1
      simp only [List.length_cons]
      omega
  | case3 => cases h
  | case4 c s hc ih =>
      obtain ⟨y, hy, rfl⟩ := Option.map_eq_some_iff.mp h
      have hs := ih hy
      simp only [List.length_cons, List.mem_cons]
      refine ⟨by omega, ?_⟩
      rintro (hpercent | hmem)
      · exact absurd hpercent.symm hc
      · have hlt := hs.2 hmem
        omega

/-- Delimiters are still there. -/
theorem mem_decode (hc : hexdigit c = none) (hpercent : c ≠ percent) (h : decode s = some x)
    (hmem : c ∈ s) : c ∈ x := by
  fun_induction decode s generalizing x with
  | case1 => cases hmem
  | case2 hi lo rest ih =>
      obtain ⟨b, hb, h⟩ := Option.bind_eq_some_iff.mp h
      obtain ⟨y, hy, rfl⟩ := Option.map_eq_some_iff.mp h
      obtain ⟨m, hm, hb⟩ := Option.bind_eq_some_iff.mp hb
      obtain ⟨n, hn, -⟩ := Option.bind_eq_some_iff.mp hb
      have hhi : c ≠ hi := by
        rintro rfl
        rw [hc] at hm
        cases hm
      have hlo : c ≠ lo := by
        rintro rfl
        rw [hc] at hn
        cases hn
      simp only [List.mem_cons, hpercent, hhi, hlo, false_or] at hmem
      exact List.mem_cons_of_mem b (ih hy hmem)
  | case3 => cases h
  | case4 d s hd ih =>
      obtain ⟨y, hy, rfl⟩ := Option.map_eq_some_iff.mp h
      rcases List.mem_cons.mp hmem with heq | hmem
      · rw [heq]
        exact List.mem_cons_self
      · exact List.mem_cons_of_mem d (ih hy hmem)

/-! ## What is read up to a delimiter -/

theorem free_iff : free ds c = true ↔ c ∉ ds := by
  simp [free]

theorem takeWhile_stop (hc : c ∈ ds) (s t : List UInt8) :
    (s ++ c :: t).takeWhile (free ds) = s.takeWhile (free ds) := by
  have hfree : free ds c = false := by simp [free, hc]
  rw [List.takeWhile_append, List.takeWhile_cons_of_neg (by simp [hfree]), List.append_nil]
  split
  · rename_i hlength
    exact ((List.takeWhile_prefix _).eq_of_length hlength).symm
  · rfl

theorem takeWhile_of_disjoint (h : s.Disjoint ds) : s.takeWhile (free ds) = s := by
  rw [List.takeWhile_eq_self_iff]
  intro d hd
  exact free_iff.mpr fun hmem => h hd hmem

theorem dropWhile_stop (h : s.Disjoint ds) (hc : c ∈ ds) (t : List UInt8) :
    (s ++ c :: t).dropWhile (free ds) = c :: t := by
  have hfree : free ds c = false := by simp [free, hc]
  rw [List.dropWhile_append_of_pos fun d hd => free_iff.mpr fun hmem => h hd hmem,
    List.dropWhile_cons_of_neg (by simp [hfree])]

theorem disjoint_of_takeWhile (h : s.takeWhile (free ds) = s) : s.Disjoint ds := by
  intro d hd hmem
  rw [List.takeWhile_eq_self_iff] at h
  exact free_iff.mp (h d hd) hmem

/-- **What can come back whole**: a text that stops before a delimiter and is decoded is as long as
it was only if it has neither a delimiter nor a percent sign. -/
theorem intact (hraw : raw <+: s.takeWhile (free ds)) (h : decode raw = some x)
    (hlength : s.length ≤ x.length) : x = s ∧ s.Disjoint (percent :: ds) := by
  have hdecode := length_decode h
  have hle := hraw.length_le
  have htake : (s.takeWhile (free ds)).length ≤ s.length :=
    (List.takeWhile_prefix _).length_le
  have hwhole : s.takeWhile (free ds) = s :=
    (List.takeWhile_prefix _).eq_of_length (by omega)
  rw [hwhole] at hraw
  have heq : raw = s := hraw.eq_of_length (by omega)
  rw [heq] at h hdecode
  have hpercent : percent ∉ s := fun hmem => by
    have hlt := hdecode.2 hmem
    omega
  rw [decode_of_notMem hpercent, Option.some.injEq] at h
  exact ⟨h.symm, List.disjoint_cons_right.mpr ⟨hpercent, disjoint_of_takeWhile hwhole⟩⟩

/-! ## The parts -/

variable {u p h d : List UInt8}

theorem takeWhile_free (ds ds' s : List UInt8) :
    (s.takeWhile (free ds')).takeWhile (free ds) = s.takeWhile (free (ds ++ ds')) := by
  rw [List.takeWhile_takeWhile]
  congr 1
  funext c
  simp [free]

/-- A user name ends at the colon, or before it. -/
theorem credentials_user (u s : List UInt8) :
    (credentials (u ++ colon :: s)).1.1 <+: u.takeWhile (free [colon, atSign, slash]) := by
  have huser : ((u ++ colon :: s).takeWhile (free [atSign, slash])).takeWhile (free [colon]) =
      u.takeWhile (free [colon, atSign, slash]) := by
    rw [takeWhile_free]
    exact takeWhile_stop (by simp) u s
  rw [credentials]
  split
  · exact List.nil_prefix
  · split
    · rw [huser]
    · exact List.nil_prefix

/-- A password ends at the `@`, or before it. -/
theorem credentials_password (hu : u.Disjoint [colon, atSign, slash]) (p s : List UInt8) :
    (credentials (u ++ colon :: (p ++ atSign :: s))).1.2 <+:
      p.takeWhile (free [atSign, slash]) := by
  have hinfo : (u ++ colon :: (p ++ atSign :: s)).takeWhile (free [atSign, slash]) =
      u ++ colon :: p.takeWhile (free [atSign, slash]) := by
    have hu' : u.Disjoint [atSign, slash] := (List.disjoint_cons_right.mp hu).2
    rw [List.takeWhile_append_of_pos fun c hc => free_iff.mpr fun hmem => hu' hc hmem,
      List.takeWhile_cons_of_pos (by decide), takeWhile_stop (by simp)]
  have hpassword : ((u ++ colon :: p.takeWhile (free [atSign, slash])).dropWhile
      (free [colon])).drop 1 = p.takeWhile (free [atSign, slash]) := by
    have hu' : u.Disjoint [colon] := List.disjoint_of_subset_right (by simp) hu
    rw [dropWhile_stop hu' (by simp), List.drop_one, List.tail_cons]
  rw [credentials]
  split
  · exact List.nil_prefix
  · split
    · rw [hinfo, hpassword]
    · exact List.nil_prefix

theorem credentials_of_disjoint (hu : u.Disjoint [colon, atSign, slash])
    (hp : p.Disjoint [atSign, slash]) (s : List UInt8) :
    credentials (u ++ colon :: (p ++ atSign :: s)) = ((u, p), s) := by
  have hu' : u.Disjoint [atSign, slash] := (List.disjoint_cons_right.mp hu).2
  have hu'' : u.Disjoint [colon] := List.disjoint_of_subset_right (by simp) hu
  have hinfo : (u ++ colon :: p).Disjoint [atSign, slash] := by
    rw [List.disjoint_append_left, List.disjoint_cons_left]
    exact ⟨hu', by decide, hp⟩
  have hdrop := dropWhile_stop (c := atSign) hinfo (by simp) s
  have htake : ((u ++ colon :: p) ++ atSign :: s).takeWhile (free [atSign, slash]) =
      u ++ colon :: p := by
    rw [takeWhile_stop (by simp), takeWhile_of_disjoint hinfo]
  rw [List.append_assoc, List.cons_append] at hdrop htake
  simp only [credentials, hdrop, htake, if_pos, takeWhile_stop (show colon ∈ [colon] by simp),
    takeWhile_of_disjoint hu'', dropWhile_stop hu'' (show colon ∈ [colon] by simp), List.drop_one,
    List.tail_cons]

/-- A host in brackets loses them, and is closed in `h` when there is no bracket behind it. -/
theorem netloc_bracket {host rest : List UInt8} (hs : rightBracket ∉ s)
    (hnetloc : netloc (leftBracket :: (h ++ colon :: s)) = some (host, rest)) :
    host.length ≤ h.length := by
  rw [netloc, if_pos rfl] at hnetloc
  have hmem : rightBracket ∈ h := by
    by_contra hnot
    have hdisjoint : (h ++ colon :: s).Disjoint [rightBracket] := by
      rw [List.disjoint_singleton, List.mem_append, List.mem_cons]
      simp [hnot, hs, show ¬rightBracket = colon by decide]
    have hdrop : (h ++ colon :: s).dropWhile (free [rightBracket]) = [] := by
      rw [List.dropWhile_eq_nil_iff]
      exact fun d hd => free_iff.mpr fun hmem => hdisjoint hd hmem
    rw [hdrop] at hnetloc
    cases hnetloc
  obtain ⟨a, b, rfl⟩ := List.append_of_mem hmem
  have htake : ((a ++ rightBracket :: b) ++ colon :: s).takeWhile (free [rightBracket]) =
      a.takeWhile (free [rightBracket]) := by
    rw [List.append_assoc, List.cons_append, takeWhile_stop (by simp)]
  have hhost : host = a.takeWhile (free [rightBracket]) := by
    rw [← htake]
    split at hnetloc
    · cases hnetloc
    · simp only [Option.ite_none_left_eq_some, Option.ite_none_right_eq_some] at hnetloc
      cases hnetloc.2.2
      rfl
  have hle : (a.takeWhile (free [rightBracket])).length ≤ a.length :=
    (List.takeWhile_prefix _).length_le
  rw [hhost, List.length_append]
  omega

/-- A host ends at the colon, or before it, and loses its brackets. -/
theorem netloc_host {host rest : List UInt8} (hs : rightBracket ∉ s)
    (hnetloc : netloc (h ++ colon :: s) = some (host, rest)) :
    (h.head? ≠ some leftBracket ∧ host <+: h.takeWhile (free [colon, slash, question, comma])) ∨
      host.length < h.length := by
  cases h with
  | nil =>
      left
      rw [List.nil_append, netloc, if_neg (by decide), Option.some.injEq, Prod.mk.injEq] at hnetloc
      rw [← hnetloc.1, List.takeWhile_cons_of_neg (by decide)]
      exact ⟨by simp, List.nil_prefix⟩
  | cons c h =>
      rw [List.cons_append] at hnetloc
      by_cases hc : c = leftBracket
      · right
        rw [hc] at hnetloc
        have hle := netloc_bracket hs hnetloc
        rw [List.length_cons]
        omega
      · left
        rw [netloc, if_neg hc, Option.some.injEq, Prod.mk.injEq] at hnetloc
        rw [← hnetloc.1, ← List.cons_append, takeWhile_stop (by simp)]
        refine ⟨?_, List.prefix_refl _⟩
        rw [List.head?_cons, ne_eq, Option.some.injEq]
        exact hc

theorem netloc_of_disjoint (hh : h.Disjoint [colon, slash, question, comma])
    (hbracket : h.head? ≠ some leftBracket) (s : List UInt8) :
    netloc (h ++ colon :: s) = some (h, colon :: s) := by
  have htake : (h ++ colon :: s).takeWhile (free [colon, slash, question, comma]) = h := by
    rw [takeWhile_stop (by simp), takeWhile_of_disjoint hh]
  have hdrop := dropWhile_stop (c := colon) hh (by simp) s
  cases h with
  | nil => rfl
  | cons c h =>
      have hc : c ≠ leftBracket := by
        rw [List.head?_cons, ne_eq, Option.some.injEq] at hbracket
        exact hbracket
      rw [List.cons_append] at htake hdrop ⊢
      rw [netloc, if_neg hc, htake, hdrop]

theorem port_of_disjoint (hd : d.Disjoint [slash, question, comma]) (s : List UInt8) :
    port (colon :: (d ++ slash :: s)) = (d, slash :: s) := by
  rw [port, if_pos rfl, takeWhile_stop (by simp), takeWhile_of_disjoint hd,
    dropWhile_stop hd (by simp)]

/-- The ports have a comma when there is more than one host. -/
theorem netlocs_host {n : ℕ} {hosts ports rest : List UInt8}
    (hnetlocs : netlocs (n + 1) s = some (hosts, ports, rest)) :
    comma ∈ ports ∨ ∃ rest', netloc s = some (hosts, rest') := by
  rw [netlocs] at hnetlocs
  obtain ⟨⟨host, rest'⟩, hnetloc, hnetlocs⟩ := Option.bind_eq_some_iff.mp hnetlocs
  by_cases hcomma : (port rest').2.head? = some comma
  · left
    simp only [if_pos hcomma] at hnetlocs
    obtain ⟨⟨hosts', ports', rest''⟩, -, hnetlocs⟩ := Option.bind_eq_some_iff.mp hnetlocs
    cases hnetlocs
    simp
  · right
    simp only [if_neg hcomma] at hnetlocs
    cases hnetlocs
    exact ⟨rest', hnetloc⟩

theorem netlocs_of_disjoint (n : ℕ) (hh : h.Disjoint [colon, slash, question, comma])
    (hbracket : h.head? ≠ some leftBracket) (hd : d.Disjoint [slash, question, comma])
    (s : List UInt8) :
    netlocs (n + 1) (h ++ colon :: (d ++ slash :: s)) = some (h, d, slash :: s) := by
  rw [netlocs, netloc_of_disjoint hh hbracket, Option.bind_eq_bind, Option.bind_some]
  simp only [port_of_disjoint hd]
  rfl

theorem path_of_disjoint (hd : d.Disjoint [question]) (s : List UInt8) :
    path (slash :: (d ++ question :: s)) = (d, question :: s) := by
  rw [path, if_pos rfl, takeWhile_stop (by simp), takeWhile_of_disjoint hd,
    dropWhile_stop hd (by simp)]

end

/-! ## A URI that is put together from its parts -/

/-- The parts with their delimiters, and nothing encoded. -/
def join (user password host port dbname params : List UInt8) : List UInt8 :=
  scheme ++ (user ++ colon :: (password ++ atSign :: (host ++ colon ::
    (port ++ slash :: (dbname ++ question :: params)))))

/-- The parts in which a delimiter may stand have none, and nothing looks like an encoded byte. -/
structure Plain (user password host : List UInt8) : Prop where
  user : user.Disjoint [percent, colon, atSign, slash]
  password : password.Disjoint [percent, atSign, slash]
  bracket : host.head? ≠ some leftBracket
  host : host.Disjoint [percent, colon, slash, question, comma]

section
variable {user password host port dbname params : List UInt8} {r : Parts}

theorem parse_scheme (s : List UInt8) : parse (scheme ++ s) = (do
    let user ← decode (credentials s).1.1
    let password ← decode (credentials s).1.2
    let (hosts, ports, rest) ← netlocs ((credentials s).2.length + 1) (credentials s).2
    let host ← decode hosts
    let port ← decode ports
    let dbname ← decode (path rest).1
    let params ← query (path rest).2
    some ⟨user, password, host, port, dbname, params⟩) := by
  have hprefix : scheme.isPrefixOf (scheme ++ s) = true := by
    rw [List.isPrefixOf_iff_prefix]
    exact List.prefix_append scheme s
  rw [parse, if_pos hprefix, List.drop_left, Option.bind_eq_bind, Option.bind_some]

/-- **Plain parts come back.** -/
theorem parse_join (h : Plain user password host) {query' : List (List UInt8 × List UInt8)}
    (hport : port.Disjoint [percent, slash, question, comma])
    (hdbname : dbname.Disjoint [percent, question])
    (hparams : query (question :: params) = some query') :
    parse (join user password host port dbname params) =
      some ⟨user, password, host, port, dbname, query'⟩ := by
  obtain ⟨huser, huser'⟩ := List.disjoint_cons_right.mp h.user
  obtain ⟨hpassword, hpassword'⟩ := List.disjoint_cons_right.mp h.password
  obtain ⟨hhost, hhost'⟩ := List.disjoint_cons_right.mp h.host
  obtain ⟨hport, hport'⟩ := List.disjoint_cons_right.mp hport
  obtain ⟨hdbname, hdbname'⟩ := List.disjoint_cons_right.mp hdbname
  rw [join, parse_scheme, credentials_of_disjoint huser' hpassword']
  simp only [netlocs_of_disjoint _ hhost' h.bracket hport', path_of_disjoint hdbname',
    decode_of_notMem huser, decode_of_notMem hpassword, decode_of_notMem hhost,
    decode_of_notMem hport, decode_of_notMem hdbname, hparams, Option.bind_eq_bind,
    Option.bind_some]

/-- **Only plain parts come back**, when there are no commas in the port and no brackets behind the
host. -/
theorem plain_of_parse (hparse : parse (join user password host port dbname params) = some r)
    (hbracket : rightBracket ∉ port ++ slash :: (dbname ++ question :: params))
    (huser : user.length ≤ r.user.length) (hpassword : password.length ≤ r.password.length)
    (hhost : host.length ≤ r.host.length) (hport : comma ∉ r.port) :
    Plain user password host ∧ r.user = user ∧ r.password = password ∧ r.host = host := by
  rw [join, parse_scheme] at hparse
  obtain ⟨user', huser', hparse⟩ := Option.bind_eq_some_iff.mp hparse
  obtain ⟨password', hpassword', hparse⟩ := Option.bind_eq_some_iff.mp hparse
  obtain ⟨⟨hosts, ports, rest⟩, hnetlocs, hparse⟩ := Option.bind_eq_some_iff.mp hparse
  obtain ⟨host', hhost', hparse⟩ := Option.bind_eq_some_iff.mp hparse
  obtain ⟨port', hport', hparse⟩ := Option.bind_eq_some_iff.mp hparse
  obtain ⟨dbname', hdbname', hparse⟩ := Option.bind_eq_some_iff.mp hparse
  obtain ⟨params', hparams', hparse⟩ := Option.bind_eq_some_iff.mp hparse
  cases hparse
  obtain ⟨rfl, huserPlain⟩ := intact (credentials_user user _) huser' huser
  have huserFree := (List.disjoint_cons_right.mp huserPlain).2
  obtain ⟨rfl, hpasswordPlain⟩ :=
    intact (credentials_password huserFree password _) hpassword' hpassword
  have hpasswordFree := (List.disjoint_cons_right.mp hpasswordPlain).2
  rw [credentials_of_disjoint huserFree hpasswordFree] at hnetlocs
  rcases netlocs_host hnetlocs with hcomma | ⟨rest', hnetloc⟩
  · exact absurd (mem_decode (by decide) (by decide) hport' hcomma) hport
  · rcases netloc_host hbracket hnetloc with ⟨hhead, hprefix⟩ | hlt
    · obtain ⟨rfl, hhostPlain⟩ := intact hprefix hhost' hhost
      exact ⟨⟨huserPlain, hpasswordPlain, hhead, hhostPlain⟩, rfl, rfl, rfl⟩
    · have hle := (length_decode hhost').1
      simp only at hhost
      omega

end
end ConnectionUri
