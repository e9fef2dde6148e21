import ClientService.Lib.ConnectionUri

/-!
# The configuration of the server

`ReadConfig` puts the connection URI together from what it finds in the configuration file, without
encoding it, and a string ends at its first zero byte. So what is parsed out of the URI is what was
configured exactly when no delimiter of the URI can be found inside a part.

## Main definitions

* `ReadConfig` — from the file to the URI.
* `Settings.RoundTrips` — what was configured comes back.
-/

namespace ClientService

open ConnectionUri

/-- What stands at a key of the file. -/
inductive JsonValue where
  /-- A string, with the bytes of its encoding. -/
  | string (s : List UInt8)
  /-- A number for which `IsInt` holds. -/
  | int (n : Int32)
  | other
  deriving DecidableEq, Repr

/-- The file, after it has been parsed. -/
structure Document where
  host : JsonValue
  username : JsonValue
  password : JsonValue
  port : JsonValue

structure Config where
  host : List UInt8
  password : List UInt8
  username : List UInt8
  connectionString : List UInt8
  port : UInt32

def DEFAULT_DB_NAME : List UInt8 := ascii "ClientMonitorService".toList

/-- What a C string holds. -/
def cstr (s : List UInt8) : List UInt8 := s.takeWhile (free [0])

/-- `BUILD_JSON_STRING_STATEMENT`. -/
def stringOr (v : JsonValue) (defaultValue : List UInt8) : List UInt8 :=
  match v with
  | .string s => cstr s
  | _ => defaultValue

/-- The port, checked after its sign has been lost. -/
def portOf (v : JsonValue) : UInt32 :=
  match v with
  | .int n => if n.toUInt32 > 65535 ∨ n.toUInt32 ≤ 0 then 5432 else n.toUInt32
  | _ => 5432

/-- A number in decimal. -/
def decimal (n : ℕ) : List UInt8 := ascii (Nat.toDigits 10 n)

def ReadConfig (document : Document) : Config :=
  let host := stringOr document.host (ascii "localhost".toList)
  let username := stringOr document.username (ascii "postgres".toList)
  let password := stringOr document.password []
  let port := portOf document.port
  let con := ascii "postgresql://".toList ++ username ++ ascii [':'] ++ password ++ ascii ['@'] ++
    host ++ ascii [':'] ++ decimal port.toNat ++ ascii ['/'] ++ DEFAULT_DB_NAME ++
    ascii "?application_name=ClientServiceServer".toList
  { host := host
    password := password
    username := username
    connectionString := cstr con
    port := port }

/-! ## The promise -/

/-- A file in which the host, the user name and the password are strings. -/
structure Settings where
  host : List UInt8
  username : List UInt8
  password : List UInt8
  port : JsonValue

namespace Settings

def connectionString (s : Settings) : List UInt8 :=
  (ReadConfig ⟨.string s.host, .string s.username, .string s.password, s.port⟩).connectionString

/-- The port that is given, or 5432 when it is none. -/
def effectivePort (s : Settings) : ℕ :=
  match s.port with
  | .int n => if 1 ≤ n.toInt ∧ n.toInt ≤ 65535 then n.toInt.toNat else 5432
  | _ => 5432

/-- What is parsed out of the URI is what is in the file. -/
def RoundTrips (s : Settings) : Prop :=
  ∃ r, parse s.connectionString = some r ∧ r.user = s.username ∧ r.password = s.password ∧
    r.host = s.host ∧ r.port = decimal s.effectivePort ∧ r.dbname = DEFAULT_DB_NAME

/-- No part has a zero byte, a percent sign, or a delimiter that may end it. -/
structure Plain (s : Settings) : Prop where
  username : s.username.Disjoint [0, percent, colon, atSign, slash]
  password : s.password.Disjoint [0, percent, atSign, slash]
  host : s.host.Disjoint [0, percent, colon, slash, question, comma]
  bracket : s.host.head? ≠ some leftBracket

end Settings

/-! ## The port -/

theorem portOf_toNat (s : Settings) : (portOf s.port).toNat = s.effectivePort := by
  cases hport : s.port with
  | string _ => simp [portOf, Settings.effectivePort, hport]
  | other => simp [portOf, Settings.effectivePort, hport]
  | int n =>
      simp only [portOf, Settings.effectivePort, hport, gt_iff_lt, UInt32.lt_iff_toNat_lt,
        UInt32.le_iff_toNat_le, UInt32.reduceToNat]
      -- A negative port is far above 65535 without its sign.
      have hsigned : n.toInt = if 2 * n.toUInt32.toNat < 2 ^ 32 then (n.toUInt32.toNat : ℤ)
          else (n.toUInt32.toNat : ℤ) - (2 ^ 32 : ℕ) := BitVec.toInt_eq_toNat_cond n.toBitVec
      have hlt := n.toUInt32.toNat_lt
      by_cases hvalid : 1 ≤ n.toInt ∧ n.toInt ≤ 65535
      · rw [if_pos hvalid, if_neg (by split at hsigned <;> omega)]
        split at hsigned
        · omega
        · omega
      · rw [if_neg hvalid, if_pos (by split at hsigned <;> omega)]
        rfl

/-- Digits are no delimiters. -/
theorem disjoint_decimal (n : ℕ) :
    (decimal n).Disjoint [0, percent, slash, question, comma, rightBracket] := by
  have hdelimiters : ∀ c ∈ [0, percent, slash, question, comma, rightBracket],
      ¬(0x30 ≤ c ∧ c ≤ 0x39) := by decide +kernel
  intro c hc hmem
  obtain ⟨d, hd, rfl⟩ := List.mem_map.mp hc
  have hdigit := Nat.isDigit_of_mem_toDigits (by decide) (by decide) hd
  simp only [Char.isDigit, Bool.and_eq_true, decide_eq_true_eq] at hdigit
  have hlow : 48 ≤ d.toNat := hdigit.1
  have hhigh : d.toNat ≤ 57 := hdigit.2
  apply hdelimiters _ hmem
  rw [UInt8.le_iff_toNat_le, UInt8.le_iff_toNat_le,
    UInt8.toNat_ofNat_of_lt' (show d.toNat < 256 by omega)]
  exact ⟨hlow, hhigh⟩

/-! ## The URI -/

/-- What comes after the `?`. -/
def applicationName : List UInt8 := ascii "application_name=ClientServiceServer".toList

theorem disjoint_dbname : DEFAULT_DB_NAME.Disjoint [0, percent, question, rightBracket] := by
  have h : ∀ c ∈ DEFAULT_DB_NAME, c ∉ [0, percent, question, rightBracket] := by
    simp only [DEFAULT_DB_NAME, String.reduceToList]
    decide +kernel
  exact fun c hc hmem => h c hc hmem

theorem disjoint_applicationName : applicationName.Disjoint [0, rightBracket] := by
  have h : ∀ c ∈ applicationName, c ∉ [0, rightBracket] := by
    simp only [applicationName, String.reduceToList]
    decide +kernel
  exact fun c hc hmem => h c hc hmem

theorem query_applicationName : query (question :: applicationName) =
    some [(ascii "application_name".toList, ascii "ClientServiceServer".toList)] := by
  simp only [applicationName, String.reduceToList]
  decide +kernel

theorem cstr_of_notMem {s : List UInt8} (h : 0 ∉ s) : cstr s = s :=
  takeWhile_of_disjoint (List.disjoint_singleton.mpr h)

theorem notMem_cstr (s : List UInt8) : 0 ∉ cstr s := by
  intro hmem
  have hfree := List.mem_takeWhile_imp hmem
  exact free_iff.mp hfree (by simp)

theorem length_cstr_le (s : List UInt8) : (cstr s).length ≤ s.length :=
  (List.takeWhile_prefix _).length_le

namespace Settings
variable {s s' : Settings}

/-- Nothing in the URI is encoded. -/
theorem connectionString_eq (s : Settings) : s.connectionString =
    join (cstr s.username) (cstr s.password) (cstr s.host) (decimal s.effectivePort)
      DEFAULT_DB_NAME applicationName := by
  have hdecimal : 0 ∉ decimal s.effectivePort := fun h => disjoint_decimal _ h (by simp)
  have hdbname : 0 ∉ DEFAULT_DB_NAME := fun h => disjoint_dbname h (by simp)
  have hname : 0 ∉ applicationName := fun h => disjoint_applicationName h (by simp)
  have hscheme : 0 ∉ scheme := by
    simp only [scheme, String.reduceToList]
    decide +kernel
  have hcon : 0 ∉ join (cstr s.username) (cstr s.password) (cstr s.host)
      (decimal s.effectivePort) DEFAULT_DB_NAME applicationName := by
    simp only [join, List.mem_append, List.mem_cons, notMem_cstr, hdecimal, hdbname, hname, hscheme,
      or_false, false_or]
    decide
  have hjoin : (ReadConfig ⟨.string s.host, .string s.username, .string s.password,
      s.port⟩).connectionString = cstr (join (cstr s.username) (cstr s.password) (cstr s.host)
        (decimal s.effectivePort) DEFAULT_DB_NAME applicationName) := by
    have hcolon : ascii [':'] = [colon] := rfl
    have hat : ascii ['@'] = [atSign] := rfl
    have hslash : ascii ['/'] = [slash] := rfl
    have hquestion : ascii "?application_name=ClientServiceServer".toList =
        question :: applicationName := by
      simp only [applicationName, String.reduceToList]
      rfl
    simp only [ReadConfig, stringOr, portOf_toNat, join, scheme, hcolon, hat, hslash, hquestion,
      List.append_assoc, List.cons_append, List.nil_append]
  rw [connectionString, hjoin, cstr_of_notMem hcon]

theorem plain_of_roundTrips (h : s.RoundTrips) : s.Plain := by
  obtain ⟨r, hparse, huser, hpassword, hhost, hport, -⟩ := h
  rw [connectionString_eq] at hparse
  have hbracket : rightBracket ∉ decimal s.effectivePort ++ slash :: (DEFAULT_DB_NAME ++
      question :: applicationName) := by
    have hdecimal : rightBracket ∉ decimal s.effectivePort :=
      fun h => disjoint_decimal _ h (by simp)
    have hdbname : rightBracket ∉ DEFAULT_DB_NAME := fun h => disjoint_dbname h (by simp)
    have hname : rightBracket ∉ applicationName := fun h => disjoint_applicationName h (by simp)
    simp only [List.mem_append, List.mem_cons, hdecimal, hdbname, hname, or_false, false_or]
    decide
  have hcomma : comma ∉ r.port := by
    rw [hport]
    exact fun h => disjoint_decimal _ h (by simp)
  -- A string that comes back whole has not been cut at a zero byte.
  obtain ⟨hplain, huser', hpassword', hhost'⟩ := plain_of_parse hparse hbracket
    (huser ▸ length_cstr_le s.username) (hpassword ▸ length_cstr_le s.password)
    (hhost ▸ length_cstr_le s.host) hcomma
  rw [huser] at huser'
  rw [hpassword] at hpassword'
  rw [hhost] at hhost'
  rw [← huser', ← hpassword', ← hhost'] at hplain
  refine ⟨?_, ?_, ?_, hplain.bracket⟩
  · exact List.disjoint_cons_right.mpr ⟨huser' ▸ notMem_cstr s.username, hplain.user⟩
  · exact List.disjoint_cons_right.mpr ⟨hpassword' ▸ notMem_cstr s.password, hplain.password⟩
  · exact List.disjoint_cons_right.mpr ⟨hhost' ▸ notMem_cstr s.host, hplain.host⟩

theorem Plain.roundTrips (h : s.Plain) : s.RoundTrips := by
  obtain ⟨huser, huser'⟩ := List.disjoint_cons_right.mp h.username
  obtain ⟨hpassword, hpassword'⟩ := List.disjoint_cons_right.mp h.password
  obtain ⟨hhost, hhost'⟩ := List.disjoint_cons_right.mp h.host
  have hdbname : DEFAULT_DB_NAME.Disjoint [percent, question] :=
    List.disjoint_of_subset_right (by simp) disjoint_dbname
  have hport : (decimal s.effectivePort).Disjoint [percent, slash, question, comma] :=
    List.disjoint_of_subset_right (by simp) (disjoint_decimal _)
  have hparse := parse_join ⟨huser', hpassword', h.bracket, hhost'⟩ hport hdbname
    query_applicationName
  have hjoin : s.connectionString = join s.username s.password s.host
      (decimal s.effectivePort) DEFAULT_DB_NAME applicationName := by
    rw [connectionString_eq, cstr_of_notMem huser, cstr_of_notMem hpassword,
      cstr_of_notMem hhost]
  rw [← hjoin] at hparse
  exact ⟨_, hparse, rfl, rfl, rfl, rfl, rfl⟩

/-- **When the URI round-trips**: when no string of the file has a zero byte, a percent sign or a
delimiter that may end it. -/
theorem roundTrips_iff (s : Settings) : s.RoundTrips ↔ s.Plain :=
  ⟨plain_of_roundTrips, Plain.roundTrips⟩

/-- What comes back is in the URI. -/
theorem RoundTrips.eq (h : s.RoundTrips) (h' : s'.RoundTrips)
    (heq : s'.connectionString = s.connectionString) :
    s'.username = s.username ∧ s'.password = s.password := by
  obtain ⟨r, hparse, huser, hpassword, -⟩ := h
  obtain ⟨r', hparse', huser', hpassword', -⟩ := h'
  rw [heq, hparse, Option.some.injEq] at hparse'
  rw [← huser', ← hpassword', ← huser, ← hpassword, hparse']
  exact ⟨rfl, rfl⟩

/-- **When the URI is the configuration**: it round-trips if and only if no string of the file has a
zero byte, a percent sign or a delimiter that may end it, and then it belongs to one user name and
password. -/
theorem connectionString_iff (s : Settings) :
    (s.RoundTrips ↔ s.Plain) ∧
      (s.Plain → ∀ s' : Settings, s'.Plain → s'.connectionString = s.connectionString →
        s'.username = s.username ∧ s'.password = s.password) :=
  ⟨roundTrips_iff s, fun h s' h' heq =>
    ((roundTrips_iff s).mpr h).eq ((roundTrips_iff s').mpr h') heq⟩

/-- An `@` in a password, and a colon that may belong to the user name or to the password. -/
theorem not_roundTrips_at :
    ¬RoundTrips ⟨ascii ['h'], ascii ['u'], ascii ['p', '@', 's'], .int 5432⟩ ∧
      connectionString ⟨ascii ['h'], ascii ['u', ':', 'v'], ascii ['p'], .int 5432⟩ =
        connectionString ⟨ascii ['h'], ascii ['u'], ascii ['v', ':', 'p'], .int 5432⟩ := by
  constructor
  · intro h
    have hplain := (roundTrips_iff _).mp h
    exact hplain.password (show atSign ∈ ascii ['p', '@', 's'] by decide) (by simp)
  · decide +kernel

end Settings

end ClientService
