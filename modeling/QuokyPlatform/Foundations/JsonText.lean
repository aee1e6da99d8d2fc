import Mathlib.Tactic.Common
import QuokyPlatform.Foundations.PlainObject

/-! # The text of a JSON value

`stringify` writes a value without white space, the fields of an object in their order. The text
determines the value: whatever follows it, the end of the value can be told from the text alone,
except that a number has to be followed by something else than a digit. -/

namespace QuokyPlatform.Json

set_option autoImplicit false
set_option maxHeartbeats 250000

/-! ## Writing -/

/-- The escapes of one letter, with the letter. -/
def shortEscape (c : Char) : Option Char :=
  if c = '\x22' then some '\x22'
  else if c = '\x5c' then some '\x5c'
  else if c = '\x08' then some 'b'
  else if c = '\x0c' then some 'f'
  else if c = '\n' then some 'n'
  else if c = '\r' then some 'r'
  else if c = '\t' then some 't'
  else none

def escapeChar (c : Char) : List Char :=
  match shortEscape c with
  | some letter => ['\x5c', letter]
  | none =>
    if c.toNat < 32 then
      ['\x5c', 'u', '0', '0', Nat.digitChar (c.toNat / 16), Nat.digitChar (c.toNat % 16)]
    else [c]

def escape : List Char → List Char
  | [] => []
  | c :: cs => escapeChar c ++ escape cs

def quote (text : String) : List Char := '\x22' :: (escape text.toList ++ ['\x22'])

def number : ℤ → List Char
  | .ofNat n => Nat.toDigits 10 n
  | .negSucc n => '-' :: Nat.toDigits 10 (n + 1)

mutual

def stringify : Json → List Char
  | .null => ['n', 'u', 'l', 'l']
  | .bool true => ['t', 'r', 'u', 'e']
  | .bool false => ['f', 'a', 'l', 's', 'e']
  | .num value => number value
  | .str text => quote text
  | .arr items => '[' :: (stringifyItems items ++ [']'])
  | .obj fields => '\x7b' :: (stringifyFields fields ++ ['\x7d'])

def stringifyItems : List Json → List Char
  | [] => []
  | item :: rest => stringify item ++ stringifyMore rest

def stringifyMore : List Json → List Char
  | [] => []
  | item :: rest => ',' :: (stringify item ++ stringifyMore rest)

def stringifyFields : List (String × Json) → List Char
  | [] => []
  | (key, value) :: rest => quote key ++ ':' :: (stringify value ++ stringifyOthers rest)

def stringifyOthers : List (String × Json) → List Char
  | [] => []
  | (key, value) :: rest => ',' :: (quote key ++ ':' :: (stringify value ++ stringifyOthers rest))

end

/-! ## Strings -/

/-- The character a short escape stands for. -/
def unescape (letter : Char) : Char :=
  if letter = 'b' then '\x08'
  else if letter = 'f' then '\x0c'
  else if letter = 'n' then '\n'
  else if letter = 'r' then '\r'
  else if letter = 't' then '\t'
  else letter

theorem unescape_of_shortEscape {c letter : Char} (h : shortEscape c = some letter) :
    c = unescape letter ∧ letter ≠ 'u' := by
  unfold shortEscape at h
  repeat' split at h
  all_goals first
    | (cases h; subst c; decide)
    | cases h

theorem ne_of_shortEscape {c : Char} (h : shortEscape c = none) : c ≠ '\x22' ∧ c ≠ '\x5c' := by
  constructor <;>
  · rintro rfl
    simp [shortEscape] at h

theorem digitChar_inj {m n : ℕ} (hm : m < 16) (hn : n < 16)
    (h : Nat.digitChar m = Nat.digitChar n) : m = n := by
  have hall : ∀ m < 16, ∀ n < 16, Nat.digitChar m = Nat.digitChar n → m = n := by decide
  exact hall m hm n hn h

/-- An escaped character can be told from what follows it. -/
theorem escapeChar_append {c d : Char} {r s : List Char}
    (h : escapeChar c ++ r = escapeChar d ++ s) : c = d ∧ r = s := by
  unfold escapeChar at h
  cases hc : shortEscape c with
  | some letter =>
    obtain ⟨hcl, hcu⟩ := unescape_of_shortEscape hc
    cases hd : shortEscape d with
    | some letter' =>
      obtain ⟨hdl, -⟩ := unescape_of_shortEscape hd
      simp only [hc, hd, List.cons_append, List.nil_append, List.cons.injEq, true_and] at h
      exact ⟨by rw [hcl, hdl, h.1], h.2⟩
    | none =>
      simp only [hc, hd] at h
      split at h
      · simp only [List.cons_append, List.cons.injEq] at h
        exact absurd h.2.1 hcu
      · simp only [List.cons_append, List.cons.injEq] at h
        exact absurd h.1.symm (ne_of_shortEscape hd).2
  | none =>
    obtain ⟨-, hcb⟩ := ne_of_shortEscape hc
    cases hd : shortEscape d with
    | some letter' =>
      obtain ⟨-, hdu⟩ := unescape_of_shortEscape hd
      simp only [hc, hd] at h
      split at h
      · simp only [List.cons_append, List.cons.injEq] at h
        exact absurd h.2.1.symm hdu
      · simp only [List.cons_append, List.cons.injEq] at h
        exact absurd h.1 hcb
    | none =>
      obtain ⟨-, hdb⟩ := ne_of_shortEscape hd
      simp only [hc, hd] at h
      split at h <;> split at h <;>
        simp only [List.cons_append, List.nil_append, List.cons.injEq, true_and] at h
      · obtain ⟨hhigh, hlow, hrest⟩ := h
        have hq := digitChar_inj (by omega) (by omega) hhigh
        have hr := digitChar_inj (by omega) (by omega) hlow
        exact ⟨Char.ext (UInt32.toNat_inj.mp (by simpa using show c.toNat = d.toNat by omega)), hrest⟩
      · exact absurd h.1.symm hdb
      · exact absurd h.1 hcb
      · exact h

/-- No escaped character begins with a quotation mark. -/
theorem head_escapeChar (c : Char) : ∃ first rest, escapeChar c = first :: rest ∧ first ≠ '\x22' := by
  unfold escapeChar
  cases hc : shortEscape c with
  | some letter => exact ⟨_, _, rfl, by decide⟩
  | none =>
    by_cases hlow : c.toNat < 32
    · simp only [hlow, if_true]
      exact ⟨_, _, rfl, by decide⟩
    · simp only [hlow, if_false]
      exact ⟨c, [], rfl, (ne_of_shortEscape hc).1⟩

theorem escape_append {cs ds r s : List Char}
    (h : escape cs ++ '\x22' :: r = escape ds ++ '\x22' :: s) : cs = ds ∧ r = s := by
  induction cs generalizing ds with
  | nil =>
    cases ds with
    | nil => simpa [escape] using h
    | cons d ds =>
      obtain ⟨first, rest, hfirst, hne⟩ := head_escapeChar d
      simp only [escape, hfirst, List.nil_append, List.cons_append, List.cons.injEq] at h
      exact absurd h.1.symm hne
  | cons c cs ih =>
    cases ds with
    | nil =>
      obtain ⟨first, rest, hfirst, hne⟩ := head_escapeChar c
      simp only [escape, hfirst, List.nil_append, List.cons_append, List.cons.injEq] at h
      exact absurd h.1 hne
    | cons d ds =>
      simp only [escape, List.append_assoc] at h
      obtain ⟨rfl, hrest⟩ := escapeChar_append h
      obtain ⟨rfl, hrs⟩ := ih hrest
      exact ⟨rfl, hrs⟩

theorem quote_append {a b : String} {r s : List Char} (h : quote a ++ r = quote b ++ s) :
    a = b ∧ r = s := by
  simp only [quote, List.cons_append, List.append_assoc, List.nil_append, List.cons.injEq,
    true_and] at h
  obtain ⟨htext, hrest⟩ := escape_append h
  exact ⟨String.toList_inj.mp htext, hrest⟩

/-! ## Numbers -/

/-- What may follow a number. -/
def Delimited (r : List Char) : Prop := ∀ c rest, r = c :: rest → c.isDigit = false

theorem delimited_cons {c : Char} {r : List Char} (h : c.isDigit = false) : Delimited (c :: r) := by
  rintro d rest heq
  cases heq
  exact h

theorem digits_append {ds es r s : List Char} (hds : ∀ c ∈ ds, c.isDigit = true)
    (hes : ∀ c ∈ es, c.isDigit = true) (hr : Delimited r) (hs : Delimited s)
    (h : ds ++ r = es ++ s) : ds = es ∧ r = s := by
  induction ds generalizing es with
  | nil =>
    cases es with
    | nil => exact ⟨rfl, h⟩
    | cons e es =>
      have hfalse := hr e (es ++ s) h
      rw [hes e List.mem_cons_self] at hfalse
      cases hfalse
  | cons d ds ih =>
    cases es with
    | nil =>
      have hfalse := hs d (ds ++ r) h.symm
      rw [hds d List.mem_cons_self] at hfalse
      cases hfalse
    | cons e es =>
      simp only [List.cons_append, List.cons.injEq] at h
      obtain ⟨rfl, hrest⟩ := h
      obtain ⟨rfl, hrs⟩ := ih (fun c hc => hds c (List.mem_cons_of_mem _ hc))
        (fun c hc => hes c (List.mem_cons_of_mem _ hc)) hrest
      exact ⟨rfl, hrs⟩

theorem isDigit_of_mem {n : ℕ} {c : Char} (h : c ∈ Nat.toDigits 10 n) : c.isDigit = true :=
  Nat.isDigit_of_mem_toDigits (by omega) (by omega) h

theorem toDigits_append {m n : ℕ} {r s : List Char} (hr : Delimited r) (hs : Delimited s)
    (h : Nat.toDigits 10 m ++ r = Nat.toDigits 10 n ++ s) : m = n ∧ r = s := by
  obtain ⟨hdigits, hrest⟩ :=
    digits_append (fun _ => isDigit_of_mem) (fun _ => isDigit_of_mem) hr hs h
  refine ⟨?_, hrest⟩
  have hvalue := congrArg (fun ds => Nat.ofDigitChars 10 ds 0) hdigits
  simpa using hvalue

theorem head_toDigits (n : ℕ) :
    ∃ c rest, Nat.toDigits 10 n = c :: rest ∧ c.isDigit = true := by
  cases h : Nat.toDigits 10 n with
  | nil => exact absurd h Nat.toDigits_ne_nil
  | cons c rest => exact ⟨c, rest, rfl, isDigit_of_mem (h ▸ List.mem_cons_self)⟩

theorem number_append {a b : ℤ} {r s : List Char} (hr : Delimited r) (hs : Delimited s)
    (h : number a ++ r = number b ++ s) : a = b ∧ r = s := by
  cases a with
  | ofNat m =>
    cases b with
    | ofNat n =>
      obtain ⟨rfl, hrest⟩ := toDigits_append hr hs h
      exact ⟨rfl, hrest⟩
    | negSucc n =>
      obtain ⟨c, rest, hc, hdigit⟩ := head_toDigits m
      simp only [number, hc, List.cons_append, List.cons.injEq] at h
      rw [h.1] at hdigit
      exact absurd hdigit (by decide)
  | negSucc m =>
    cases b with
    | ofNat n =>
      obtain ⟨c, rest, hc, hdigit⟩ := head_toDigits n
      simp only [number, hc, List.cons_append, List.cons.injEq] at h
      rw [← h.1] at hdigit
      exact absurd hdigit (by decide)
    | negSucc n =>
      simp only [number, List.cons_append, List.cons.injEq, true_and] at h
      obtain ⟨hmn, hrest⟩ := toDigits_append hr hs h
      exact ⟨by rw [Nat.succ.inj hmn], hrest⟩

/-! ## Values -/

/-- Which kind of value a text begins; `6` when it begins none. -/
def kindOf (c : Char) : ℕ :=
  if c.isDigit ∨ c = '-' then 2
  else if c = 'n' then 0
  else if c = 't' ∨ c = 'f' then 1
  else if c = '\x22' then 3
  else if c = '[' then 4
  else if c = '\x7b' then 5
  else 6

def kind : Json → ℕ
  | .null => 0
  | .bool _ => 1
  | .num _ => 2
  | .str _ => 3
  | .arr _ => 4
  | .obj _ => 5

theorem kindOf_digit {c : Char} (h : c.isDigit = true) : kindOf c = 2 := by
  simp [kindOf, h]

theorem head_stringify (value : Json) :
    ∃ c rest, stringify value = c :: rest ∧ kindOf c = value.kind := by
  cases value with
  | null => exact ⟨_, _, rfl, rfl⟩
  | bool b => cases b <;> exact ⟨_, _, rfl, rfl⟩
  | num n =>
    cases n with
    | ofNat n =>
      obtain ⟨c, rest, hc, hdigit⟩ := head_toDigits n
      exact ⟨c, rest, hc, kindOf_digit hdigit⟩
    | negSucc n => exact ⟨_, _, rfl, rfl⟩
  | str text => exact ⟨_, _, rfl, rfl⟩
  | arr items => exact ⟨_, _, rfl, rfl⟩
  | obj fields => exact ⟨_, _, rfl, rfl⟩

theorem delimited_more (items : List Json) (r : List Char) :
    Delimited (stringifyMore items ++ ']' :: r) := by
  cases items with
  | nil => exact delimited_cons (by decide)
  | cons item rest =>
    rw [stringifyMore]
    exact delimited_cons (by decide)

theorem delimited_others (fields : List (String × Json)) (r : List Char) :
    Delimited (stringifyOthers fields ++ '\x7d' :: r) := by
  cases fields with
  | nil => exact delimited_cons (by decide)
  | cons entry rest =>
    obtain ⟨key, value⟩ := entry
    rw [stringifyOthers]
    exact delimited_cons (by decide)

/-- No value begins with a closing bracket. -/
theorem stringify_ne {value : Json} {r s : List Char} : stringify value ++ r ≠ ']' :: s := by
  intro h
  obtain ⟨c, rest, hc, hkind⟩ := head_stringify value
  rw [hc, List.cons_append, List.cons.injEq] at h
  rw [h.1] at hkind
  cases value <;> cases hkind

theorem kind_eq {a b : Json} {r s : List Char} (h : stringify a ++ r = stringify b ++ s) :
    a.kind = b.kind := by
  obtain ⟨c, rest, hc, hkind⟩ := head_stringify a
  obtain ⟨d, rest', hd, hkind'⟩ := head_stringify b
  rw [hc, hd, List.cons_append, List.cons_append, List.cons.injEq] at h
  rw [← hkind, ← hkind', h.1]

mutual

/-- The text of a value ends where the value ends. -/
theorem stringify_append : ∀ (a b : Json) {r s : List Char}, Delimited r → Delimited s →
    stringify a ++ r = stringify b ++ s → a = b ∧ r = s
  | .null, b, r, s, _, _, h => by
    have hkind := kind_eq h
    cases b with
    | null => exact ⟨rfl, by simpa [stringify] using h⟩
    | _ => cases hkind
  | .bool x, b, r, s, _, _, h => by
    have hkind := kind_eq h
    cases b with
    | bool y => cases x <;> cases y <;> simp_all [stringify]
    | _ => cases hkind
  | .num x, b, r, s, hr, hs, h => by
    have hkind := kind_eq h
    cases b with
    | num y =>
      obtain ⟨rfl, hrest⟩ := number_append hr hs h
      exact ⟨rfl, hrest⟩
    | _ => cases hkind
  | .str x, b, r, s, _, _, h => by
    have hkind := kind_eq h
    cases b with
    | str y =>
      obtain ⟨rfl, hrest⟩ := quote_append h
      exact ⟨rfl, hrest⟩
    | _ => cases hkind
  | .arr xs, b, r, s, _, _, h => by
    have hkind := kind_eq h
    cases b with
    | arr ys =>
      simp only [stringify, List.cons_append, List.append_assoc, List.nil_append, List.cons.injEq,
        true_and] at h
      obtain ⟨rfl, hrest⟩ := stringifyItems_append xs ys h
      exact ⟨rfl, hrest⟩
    | _ => cases hkind
  | .obj xs, b, r, s, _, _, h => by
    have hkind := kind_eq h
    cases b with
    | obj ys =>
      simp only [stringify, List.cons_append, List.append_assoc, List.nil_append, List.cons.injEq,
        true_and] at h
      obtain ⟨rfl, hrest⟩ := stringifyFields_append xs ys h
      exact ⟨rfl, hrest⟩
    | _ => cases hkind

theorem stringifyItems_append : ∀ (xs ys : List Json) {r s : List Char},
    stringifyItems xs ++ ']' :: r = stringifyItems ys ++ ']' :: s → xs = ys ∧ r = s
  | [], [], r, s, h => by simpa [stringifyItems] using h
  | [], y :: ys, r, s, h => by
    simp only [stringifyItems, List.nil_append, List.append_assoc] at h
    exact absurd h.symm stringify_ne
  | x :: xs, [], r, s, h => by
    simp only [stringifyItems, List.nil_append, List.append_assoc] at h
    exact absurd h stringify_ne
  | x :: xs, y :: ys, r, s, h => by
    simp only [stringifyItems, List.append_assoc] at h
    obtain ⟨rfl, hmore⟩ :=
      stringify_append x y (delimited_more xs r) (delimited_more ys s) h
    obtain ⟨rfl, hrest⟩ := stringifyMore_append xs ys hmore
    exact ⟨rfl, hrest⟩

theorem stringifyMore_append : ∀ (xs ys : List Json) {r s : List Char},
    stringifyMore xs ++ ']' :: r = stringifyMore ys ++ ']' :: s → xs = ys ∧ r = s
  | [], [], r, s, h => by simpa [stringifyMore] using h
  | [], y :: ys, r, s, h => by simp [stringifyMore] at h
  | x :: xs, [], r, s, h => by simp [stringifyMore] at h
  | x :: xs, y :: ys, r, s, h => by
    simp only [stringifyMore, List.cons_append, List.append_assoc, List.cons.injEq, true_and] at h
    obtain ⟨rfl, hmore⟩ :=
      stringify_append x y (delimited_more xs r) (delimited_more ys s) h
    obtain ⟨rfl, hrest⟩ := stringifyMore_append xs ys hmore
    exact ⟨rfl, hrest⟩

theorem stringifyFields_append : ∀ (xs ys : List (String × Json)) {r s : List Char},
    stringifyFields xs ++ '\x7d' :: r = stringifyFields ys ++ '\x7d' :: s → xs = ys ∧ r = s
  | [], [], r, s, h => by simpa [stringifyFields] using h
  | [], (key, y) :: ys, r, s, h => by simp [stringifyFields, quote] at h
  | (key, x) :: xs, [], r, s, h => by simp [stringifyFields, quote] at h
  | (key, x) :: xs, (key', y) :: ys, r, s, h => by
    simp only [stringifyFields, List.append_assoc, List.cons_append] at h
    obtain ⟨rfl, hvalue⟩ := quote_append h
    simp only [List.cons.injEq, true_and] at hvalue
    obtain ⟨rfl, hothers⟩ :=
      stringify_append x y (delimited_others xs r) (delimited_others ys s) hvalue
    obtain ⟨rfl, hrest⟩ := stringifyOthers_append xs ys hothers
    exact ⟨rfl, hrest⟩

theorem stringifyOthers_append : ∀ (xs ys : List (String × Json)) {r s : List Char},
    stringifyOthers xs ++ '\x7d' :: r = stringifyOthers ys ++ '\x7d' :: s → xs = ys ∧ r = s
  | [], [], r, s, h => by simpa [stringifyOthers] using h
  | [], (key, y) :: ys, r, s, h => by simp [stringifyOthers] at h
  | (key, x) :: xs, [], r, s, h => by simp [stringifyOthers] at h
  | (key, x) :: xs, (key', y) :: ys, r, s, h => by
    simp only [stringifyOthers, List.append_assoc, List.cons_append, List.cons.injEq,
      true_and] at h
    obtain ⟨rfl, hvalue⟩ := quote_append h
    simp only [List.cons.injEq, true_and] at hvalue
    obtain ⟨rfl, hothers⟩ :=
      stringify_append x y (delimited_others xs r) (delimited_others ys s) hvalue
    obtain ⟨rfl, hrest⟩ := stringifyOthers_append xs ys hothers
    exact ⟨rfl, hrest⟩

end

theorem stringify_injective : Function.Injective stringify := by
  intro a b h
  have hnil : Delimited [] := by
    rintro c rest heq
    cases heq
  exact (stringify_append a b hnil hnil (by rw [h])).1

end QuokyPlatform.Json
