import Mathlib

/- Prefix-free codes over any alphabet: finding the word that a stream starts with, why the
   order in which the words are tried cannot matter, and codes built from others. -/
namespace PrefixCode
variable {α κ μ : Type} {code : κ → List α} {valid : κ → Prop}

/-- No word of the list is a prefix of a word at another place of the list. -/
def PrefixFree (words : List (List α)) : Prop :=
  words.Pairwise (fun a b => ¬ a <+: b ∧ ¬ b <+: a)

theorem PrefixFree.perm {words others : List (List α)} (free : PrefixFree words)
    (same : words.Perm others) : PrefixFree others :=
  (same.pairwise_iff (fun h => ⟨h.2, h.1⟩)).mp free

/-- Of two prefixes of one stream, one is a prefix of the other. -/
theorem comparable {a b stream : List α} (ha : a <+: stream) (hb : b <+: stream) :
    a <+: b ∨ b <+: a :=
  List.prefix_or_prefix_of_prefix ha hb

theorem index_unique {words : List (List α)} (free : PrefixFree words) {stream : List α}
    {i j : Nat} (hi : i < words.length) (hj : j < words.length)
    (startsI : words[i] <+: stream) (startsJ : words[j] <+: stream) : i = j := by
  have apart := List.pairwise_iff_getElem.mp free
  rcases Nat.lt_trichotomy i j with before | same | after
  · have := apart i j hi hj before
    exact absurd (comparable startsI startsJ) (by tauto)
  · exact same
  · have := apart j i hj hi after
    exact absurd (comparable startsI startsJ) (by tauto)

/-- In a prefix-free list at most one entry starts a stream. -/
theorem word_unique {keys : List κ} (free : PrefixFree (keys.map code)) {stream : List α}
    {a b : κ} (ha : a ∈ keys) (hb : b ∈ keys) (startsA : code a <+: stream)
    (startsB : code b <+: stream) : a = b := by
  obtain ⟨i, hi, rfl⟩ := List.mem_iff_getElem.mp ha
  obtain ⟨j, hj, rfl⟩ := List.mem_iff_getElem.mp hb
  have same : i = j := by
    refine index_unique free (by simpa using hi) (by simpa using hj) (?_ : _ <+: stream) ?_
    · simpa using startsA
    · simpa using startsB
  subst same
  rfl

/-- A word of the code that starts a stream still starts every longer stream, and no other
    word does. -/
theorem word_unique_extend {keys : List κ} (free : PrefixFree (keys.map code))
    {short long : List α} (longer : short <+: long) {a b : κ} (ha : a ∈ keys) (hb : b ∈ keys)
    (startsA : code a <+: short) (startsB : code b <+: long) : a = b :=
  word_unique free ha hb (startsA.trans longer) startsB

/- Codes whose words end where they say. -/

/-- Whatever follows, a word shows which key it stands for and where it ends. -/
def Delimited (code : κ → List α) (valid : κ → Prop) : Prop :=
  ∀ a b, valid a → valid b → ∀ s t, code a ++ s = code b ++ t → a = b ∧ s = t

theorem Delimited.injective (delimited : Delimited code valid) {a b : κ} (validA : valid a)
    (validB : valid b) (same : code a = code b) : a = b :=
  (delimited a b validA validB [] [] (by rw [same])).1

/-- Words of one length need only be different. -/
theorem Delimited.of_length {width : Nat} (length : ∀ a, (code a).length = width)
    (injective : ∀ a b, valid a → valid b → code a = code b → a = b) : Delimited code valid := by
  intro a b validA validB s t same
  obtain ⟨words, rest⟩ := List.append_inj same ((length a).trans (length b).symm)
  exact ⟨injective a b validA validB words, rest⟩

/-- A key written as the word of its image. -/
theorem Delimited.comp (delimited : Delimited code valid) {image : μ → κ} {other : μ → Prop}
    (maps : ∀ a, other a → valid (image a)) (injective : ∀ a b, image a = image b → a = b) :
    Delimited (fun a => code (image a)) other := by
  intro a b validA validB s t same
  obtain ⟨images, rest⟩ := delimited _ _ (maps a validA) (maps b validB) s t same
  exact ⟨injective a b images, rest⟩

theorem Delimited.flatMap (delimited : Delimited code valid) {as bs : List κ}
    (validA : ∀ a ∈ as, valid a) (validB : ∀ b ∈ bs, valid b) (lengths : as.length = bs.length)
    {s t : List α} (same : as.flatMap code ++ s = bs.flatMap code ++ t) : as = bs ∧ s = t := by
  induction as generalizing bs with
  | nil =>
    cases bs with
    | nil => exact ⟨rfl, same⟩
    | cons b bs => cases lengths
  | cons a as ih =>
    cases bs with
    | nil => cases lengths
    | cons b bs =>
      rw [List.flatMap_cons, List.flatMap_cons, List.append_assoc, List.append_assoc] at same
      obtain ⟨rfl, behind⟩ :=
        delimited a b (validA a List.mem_cons_self) (validB b List.mem_cons_self) _ _ same
      obtain ⟨rfl, rest⟩ := ih (fun a later => validA a (List.mem_cons_of_mem _ later))
        (fun b later => validB b (List.mem_cons_of_mem _ later)) (Nat.succ.inj lengths) behind
      exact ⟨rfl, rest⟩

/-- A list written behind the number of its elements. -/
theorem Delimited.counted (delimited : Delimited code valid) {count : Nat → List α}
    {countable : Nat → Prop} (counts : Delimited count countable) :
    Delimited (fun keys : List κ => count keys.length ++ keys.flatMap code)
      (fun keys => countable keys.length ∧ ∀ key ∈ keys, valid key) := by
  rintro as bs ⟨countA, validA⟩ ⟨countB, validB⟩ s t same
  rw [List.append_assoc, List.append_assoc] at same
  obtain ⟨lengths, same⟩ := counts _ _ countA countB _ _ same
  exact delimited.flatMap validA validB lengths same

end PrefixCode
