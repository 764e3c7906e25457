import Mathlib.Computability.Language
import QuadIndex.Regex.Search

/-!
# The languages of expressions

An expression that tests no places has a language. Advancing from marked places marks the places
where a word of the language ends that begins at one of them (`takes_advance`), so an expression
between tests of the start and of the end of the text matches the texts of its language
(`search_between`).
Groups make no difference to the language.
-/

namespace QuadIndex.Regex

variable {r : Regex} {rs : List Regex} {text : List (Option Char)} {s : Places} {u v w : List Char}
  {i j n : Nat}

/-- The expression tests no places. -/
def AnchorFree : Regex → Prop
  | empty | one _ => True
  | seq first second => first.AnchorFree ∧ second.AnchorFree
  | alt left right => left.AnchorFree ∧ right.AnchorFree
  | repeated body .. => body.AnchorFree
  | anchor _ => False
  | group _ body => body.AnchorFree

/-- The texts that match as a whole, if the expression tests no places. -/
def language : Regex → Language Char
  | empty => 1
  | one set => {w : List Char | ∃ c, set.contains c ∧ w = [c]}
  | seq first second => first.language * second.language
  | alt left right => left.language + right.language
  | repeated body least most _ =>
    {w : List Char | ∃ more, (∀ m, most = some m → more ≤ m - least) ∧
      w ∈ body.language ^ (least + more)}
  | anchor _ => 0
  | group _ body => body.language

/-- The expression without its groups. -/
def bare : Regex → Regex
  | empty => empty
  | one set => one set
  | seq first second => seq first.bare second.bare
  | alt left right => alt left.bare right.bare
  | repeated body least most greedy => repeated body.bare least most greedy
  | anchor a => anchor a
  | group _ body => body.bare

@[simp] theorem language_bare (r : Regex) : r.bare.language = r.language := by
  induction r with
  | empty | one | anchor => rfl
  | seq first second ih ih' => rw [bare, language, language, ih, ih']
  | alt left right ih ih' => rw [bare, language, language, ih, ih']
  | repeated body least most greedy ih => rw [bare, language, language, ih]
  | group number body ih => exact ih

@[simp] theorem anchorFree_bare (r : Regex) : r.bare.AnchorFree ↔ r.AnchorFree := by
  induction r with
  | empty | one | anchor => rfl
  | seq first second ih ih' => exact and_congr ih ih'
  | alt left right ih ih' => exact and_congr ih ih'
  | repeated body least most greedy ih => exact ih
  | group number body ih => exact ih

theorem bare_sequence (rs : List Regex) : (sequence rs).bare = sequence (rs.map bare) := by
  induction rs with
  | nil => rfl
  | cons r rs ih => exact congrArg (seq r.bare) ih

theorem bare_anyOf (r : Regex) (rs : List Regex) :
    (anyOf r rs).bare = anyOf r.bare (rs.map bare) := by
  induction rs generalizing r with
  | nil => rfl
  | cons s rs ih => exact ih _

theorem language_sequence_append (rs ss : List Regex) :
    (sequence (rs ++ ss)).language = (sequence rs).language * (sequence ss).language := by
  induction rs with
  | nil => exact (one_mul _).symm
  | cons r rs ih => exact (congrArg (r.language * ·) ih).trans (mul_assoc _ _ _).symm

theorem anchorFree_sequence : (sequence rs).AnchorFree ↔ ∀ r ∈ rs, r.AnchorFree := by
  induction rs with
  | nil => exact iff_of_true trivial fun r mem => by cases mem
  | cons r rs ih => exact (and_congr_right fun _ => ih).trans List.forall_mem_cons.symm

theorem contains_singleton {c d : Char} : (CharSet.singleton c).contains d ↔ d = c := by
  rw [CharSet.singleton, CharSet.contains_between, Bool.and_eq_true, decide_eq_true_iff,
    decide_eq_true_iff]
  constructor
  · rintro ⟨least, most⟩
    exact Char.le_antisymm most least
  · rintro rfl
    exact ⟨Char.le_refl _, Char.le_refl _⟩

theorem language_singleton {c : Char} : (one (.singleton c)).language = {[c]} := by
  ext w
  constructor
  · rintro ⟨d, member, rfl⟩
    rw [contains_singleton.1 member]
    rfl
  · rintro rfl
    exact ⟨c, contains_singleton.2 rfl, rfl⟩

theorem cons_mem_one_mul {set : CharSet} {l : Language Char} {c : Char} :
    c :: w ∈ (one set).language * l ↔ set.contains c = true ∧ w ∈ l := by
  constructor
  · rintro ⟨_, ⟨d, member, rfl⟩, v, mem, same⟩
    obtain ⟨rfl, rfl⟩ := List.cons.inj same
    exact ⟨member, mem⟩
  · rintro ⟨member, mem⟩
    exact Language.mem_mul.2 ⟨[c], ⟨c, member, rfl⟩, w, mem, rfl⟩

theorem mem_one_pow {set : CharSet} :
    w ∈ (one set).language ^ n ↔ w.length = n ∧ ∀ c ∈ w, set.contains c := by
  induction n generalizing w with
  | zero =>
    rw [pow_zero, Language.mem_one, List.length_eq_zero_iff]
    constructor
    · rintro rfl
      exact ⟨rfl, fun c mem => by cases mem⟩
    · exact And.left
  | succ n ih =>
    rw [pow_succ', Language.mem_mul]
    constructor
    · rintro ⟨_, ⟨c, member, rfl⟩, v, hv, rfl⟩
      obtain ⟨length, all⟩ := ih.1 hv
      exact ⟨congrArg Nat.succ length, List.forall_mem_cons.2 ⟨member, all⟩⟩
    · rintro ⟨length, all⟩
      cases w with
      | nil => cases length
      | cons c v =>
        obtain ⟨member, all⟩ := List.forall_mem_cons.1 all
        exact ⟨[c], ⟨c, member, rfl⟩, v, ih.2 ⟨Nat.succ.inj length, all⟩, rfl⟩

/-- Any number of characters of a set. -/
theorem mem_star {set : CharSet} {greedy : Bool} :
    w ∈ (repeated (one set) 0 none greedy).language ↔ ∀ c ∈ w, set.contains c := by
  constructor
  · rintro ⟨more, _, mem⟩
    exact (mem_one_pow.1 mem).2
  · intro all
    exact ⟨w.length, (fun m bounded => by cases bounded),
      mem_one_pow.2 ⟨(Nat.zero_add _).symm, all⟩⟩

/-- A number of characters of a set. -/
theorem mem_times {set : CharSet} {greedy : Bool} :
    w ∈ (repeated (one set) n (some n) greedy).language ↔
      w.length = n ∧ ∀ c ∈ w, set.contains c := by
  constructor
  · rintro ⟨more, bounded, mem⟩
    have none : more = 0 := by
      have := bounded n rfl
      omega
    rw [none, Nat.add_zero] at mem
    exact mem_one_pow.1 mem
  · intro all
    exact ⟨0, fun _ _ => Nat.zero_le _, mem_one_pow.2 all⟩

theorem advance_bare (r : Regex) (s : Places) : r.bare.advance text s = r.advance text s := by
  induction r generalizing s with
  | empty | one | anchor => rfl
  | seq first second ih ih' => rw [bare, advance, advance, ih, ih']
  | alt left right ih ih' => rw [bare, advance, advance, ih, ih']
  | repeated body least most greedy ih =>
    have same : body.bare.advance text = body.advance text := funext ih
    rw [bare, advance, advance, same]
  | group number body ih => exact ih s

/-! ## Words in a text -/

/-- The characters between two places of the text are those of the word. -/
def Spells (text : List (Option Char)) (i : Nat) (w : List Char) (j : Nat) : Prop :=
  j = i + w.length ∧ ∀ k c, w[k]? = some c → text[i + k]? = some (some c)

theorem spells_nil : Spells text i [] j ↔ j = i := by
  simp [Spells]

theorem spells_singleton {c : Char} :
    Spells text i [c] j ↔ j = i + 1 ∧ text[i]? = some (some c) := by
  refine and_congr_right fun _ => ⟨fun spelled => spelled 0 c rfl, fun there k d found => ?_⟩
  obtain ⟨rfl, rfl⟩ : k = 0 ∧ c = d := by
    cases k <;> simp_all
  exact there

theorem spells_append : Spells text i (u ++ v) n ↔ ∃ j, Spells text i u j ∧ Spells text j v n := by
  constructor
  · rintro ⟨rfl, spelled⟩
    refine ⟨i + u.length, ⟨rfl, fun k c found => ?_⟩, ?_, fun k c found => ?_⟩
    · exact spelled k c (List.getElem?_append_left (List.getElem?_eq_some_iff.1 found).1 ▸ found)
    · rw [List.length_append, Nat.add_assoc]
    · have later := spelled (u.length + k) c
        (by rwa [List.getElem?_append_right (Nat.le_add_right _ _), Nat.add_sub_cancel_left])
      rwa [← Nat.add_assoc] at later
  · rintro ⟨j, ⟨rfl, spelled⟩, rfl, spelled'⟩
    refine ⟨by rw [List.length_append, Nat.add_assoc], fun k c found => ?_⟩
    rw [List.getElem?_append] at found
    split at found
    · exact spelled k c found
    · next later =>
      have := spelled' _ c found
      rwa [Nat.add_assoc, Nat.add_sub_cancel' (Nat.not_lt.1 later)] at this

theorem Spells.length_le (h : Spells text i w j) : w.length ≤ text.length := by
  cases w using List.reverseRecOn with
  | nil => exact Nat.zero_le _
  | append_singleton w c =>
    have last := h.2 w.length c List.getElem?_concat_length
    have inside := (List.getElem?_eq_some_iff.1 last).1
    rw [List.length_append, List.length_singleton]
    omega

/-- A word of the language stands between two places of the text. -/
def Reaches (l : Language Char) (text : List (Option Char)) (i j : Nat) : Prop :=
  ∃ w ∈ l, Spells text i w j

variable {l m : Language Char}

theorem reaches_one : Reaches 1 text i j ↔ j = i := by
  simp [Reaches, Language.mem_one, spells_nil]

theorem reaches_mul :
    Reaches (l * m) text i n ↔ ∃ j, Reaches l text i j ∧ Reaches m text j n := by
  constructor
  · rintro ⟨_, ⟨u, hu, v, hv, rfl⟩, spelled⟩
    obtain ⟨j, first, second⟩ := spells_append.1 spelled
    exact ⟨j, ⟨u, hu, first⟩, v, hv, second⟩
  · rintro ⟨j, ⟨u, hu, first⟩, v, hv, second⟩
    exact ⟨u ++ v, Language.append_mem_mul hu hv, spells_append.2 ⟨j, first, second⟩⟩

theorem reaches_add : Reaches (l + m) text i j ↔ Reaches l text i j ∨ Reaches m text i j := by
  simp only [Reaches, Language.mem_add, or_and_right, exists_or]

/-- Words without characters can be left out, and the others are no more than the characters. -/
theorem exists_pow_le (mem : w ∈ l ^ n) : ∃ k ≤ w.length, w ∈ l ^ k := by
  obtain ⟨ws, whole, _, all⟩ := Language.mem_pow.1 mem
  obtain ⟨vs, rfl, nonempty⟩ := Language.mem_kstar_iff_exists_nonempty.1
    (Language.mem_kstar.2 ⟨ws, whole, all⟩)
  refine ⟨vs.length, ?_, Language.mem_pow.2 ⟨vs, rfl, rfl, fun v mem => (nonempty v mem).1⟩⟩
  clear whole mem
  induction vs with
  | nil => exact Nat.zero_le _
  | cons v vs ih =>
    have first : 0 < v.length := List.length_pos_iff.2 (nonempty v (.head _)).2
    have others := ih fun u mem => nonempty u (.tail _ mem)
    rw [List.length_cons, List.flatten_cons, List.length_append]
    omega

/-! ## Advancing -/

/-- The function takes marked places to the places that are related to one of them. -/
def Takes (text : List (Option Char)) (f : Places → Places) (R : Nat → Nat → Prop) : Prop :=
  ∀ s, s.length = text.length + 1 → (f s).length = text.length + 1 ∧
    ∀ j, (f s)[j]? = some true ↔ ∃ i, s[i]? = some true ∧ R i j

namespace Takes

variable {f g : Places → Places} {R S : Nat → Nat → Prop}

theorem congr (h : Takes text f R) (same : ∀ i j, R i j ↔ S i j) : Takes text f S := by
  obtain rfl : R = S := funext₂ fun i j => propext (same i j)
  exact h

theorem id : Takes text (fun s => s) (fun i j => j = i) :=
  fun s length => ⟨length, fun j => by simp⟩

theorem comp (h : Takes text f R) (h' : Takes text g S) :
    Takes text (fun s => g (f s)) fun i n => ∃ j, R i j ∧ S j n := by
  intro s length
  obtain ⟨length', marked⟩ := h s length
  obtain ⟨length'', marked'⟩ := h' (f s) length'
  refine ⟨length'', fun n => ?_⟩
  simp only [marked', marked]
  constructor
  · rintro ⟨j, ⟨i, first, there⟩, further⟩
    exact ⟨i, first, j, there, further⟩
  · rintro ⟨i, first, j, there, further⟩
    exact ⟨j, ⟨i, first, there⟩, further⟩

theorem merge (h : Takes text f R) (h' : Takes text g S) :
    Takes text (fun s => merge (f s) (g s)) fun i j => R i j ∨ S i j := by
  intro s length
  obtain ⟨length', marked⟩ := h s length
  obtain ⟨length'', marked'⟩ := h' s length
  refine ⟨?_, fun j => ?_⟩
  · change (List.zipWith _ _ _).length = _
    rw [List.length_zipWith, length', length'', min_self]
  · simp only [and_or_left, exists_or, ← marked, ← marked', Regex.merge, List.getElem?_zipWith]
    by_cases inside : j < text.length + 1
    · rw [List.getElem?_eq_getElem (length' ▸ inside), List.getElem?_eq_getElem (length'' ▸ inside)]
      simp
    · rw [List.getElem?_eq_none (by omega), List.getElem?_eq_none (by omega)]
      simp

end Takes

/-- A repetition takes places along as many words of the language. -/
theorem Takes.repeat {f : Places → Places} (h : Takes text f (Reaches l text)) (n : Nat) :
    Takes text (Nat.repeat f n) (Reaches (l ^ n) text) := by
  induction n with
  | zero => exact Takes.id.congr fun i j => by rw [pow_zero, reaches_one]
  | succ n ih => exact (ih.comp h).congr fun i j => by rw [pow_succ, reaches_mul]

theorem Takes.repeat_merge {f : Places → Places} (h : Takes text f (Reaches l text)) (n : Nat) :
    Takes text (Nat.repeat (fun t => Regex.merge t (f t)) n)
      fun i j => ∃ k ≤ n, Reaches (l ^ k) text i j := by
  induction n with
  | zero => exact Takes.id.congr fun i j => by simp [reaches_one]
  | succ n ih =>
    refine (ih.comp (Takes.id.merge h)).congr fun i j => ?_
    constructor
    · rintro ⟨_, ⟨k, few, reached⟩, rfl | further⟩
      · exact ⟨k, Nat.le_succ_of_le few, reached⟩
      · exact ⟨k + 1, Nat.succ_le_succ few, pow_succ l k ▸ reaches_mul.2 ⟨_, reached, further⟩⟩
    · rintro ⟨k, few, reached⟩
      cases k with
      | zero => exact ⟨j, ⟨0, Nat.zero_le _, reached⟩, .inl rfl⟩
      | succ k =>
        obtain ⟨m, before, last⟩ := reaches_mul.1 (pow_succ l k ▸ reached)
        exact ⟨m, ⟨k, Nat.le_of_succ_le_succ few, before⟩, .inr last⟩

theorem takes_one (set : CharSet) :
    Takes text ((one set).advance text) (Reaches (one set).language text) := by
  intro s length
  refine ⟨by simp [advance, length], fun j => ?_⟩
  have reached : ∀ i, Reaches (one set).language text i j ↔
      ∃ c, set.contains c ∧ j = i + 1 ∧ text[i]? = some (some c) := by
    intro i
    constructor
    · rintro ⟨_, ⟨c, member, rfl⟩, spelled⟩
      exact ⟨c, member, spells_singleton.1 spelled⟩
    · rintro ⟨c, member, spelled⟩
      exact ⟨[c], ⟨c, member, rfl⟩, spells_singleton.2 spelled⟩
  simp only [reached, advance]
  cases j with
  | zero => simp
  | succ i =>
    rw [List.getElem?_cons_succ, List.getElem?_zipWith]
    constructor
    · intro marked
      rcases first : s[i]? with _ | m <;> rcases symbol : text[i]? with _ | _ | c <;>
        simp_all [Option.any]
    · rintro ⟨_, marked, c, member, same, symbol⟩
      obtain rfl := Nat.succ.inj same
      rw [marked, symbol]
      simpa [Option.any] using member

theorem takes_advance (free : r.AnchorFree) :
    Takes text (r.advance text) (Reaches r.language text) := by
  induction r with
  | empty => exact Takes.id.congr fun i j => reaches_one.symm
  | one set => exact takes_one set
  | seq first second ih ih' =>
    exact ((ih free.1).comp (ih' free.2)).congr fun i j => reaches_mul.symm
  | alt left right ih ih' =>
    exact ((ih free.1).merge (ih' free.2)).congr fun i j => reaches_add.symm
  | repeated body least most greedy ih =>
    have rounds := ((ih free).repeat least).comp
      ((ih free).repeat_merge ((most.map (· - least)).getD text.length))
    simp only [← settle_eq_repeat] at rounds
    refine rounds.congr fun i j => ?_
    constructor
    · rintro ⟨n, ⟨u, hu, first⟩, k, few, v, hv, second⟩
      refine ⟨u ++ v, ⟨k, ?_, ?_⟩, spells_append.2 ⟨n, first, second⟩⟩
      · rintro m rfl
        exact few
      · exact pow_add body.language least k ▸ Language.append_mem_mul hu hv
    · rintro ⟨w, ⟨more, bounded, mem⟩, spelled⟩
      obtain ⟨u, hu, v, hv, rfl⟩ := pow_add body.language least more ▸ mem
      obtain ⟨n, first, second⟩ := spells_append.1 spelled
      refine ⟨n, ⟨u, hu, first⟩, ?_⟩
      cases most with
      | some m => exact ⟨more, bounded m rfl, v, hv, second⟩
      | none =>
        obtain ⟨k, few, hv⟩ := exists_pow_le hv
        exact ⟨k, few.trans second.length_le, v, hv, second⟩
  | anchor a => cases free
  | group number body ih => exact ih free

/-! ## Between the ends of a text -/

theorem takes_anchor (a : Anchor) : Takes text ((anchor a).advance text)
    fun i j => j = i ∧ (a.places text)[i]? = some true := by
  intro s length
  have places : (a.places text).length = text.length + 1 := by
    simp [Anchor.places, Anchor.beside]
  refine ⟨?_, fun j => ?_⟩
  · rw [advance, List.length_zipWith, length, places, min_self]
  · rw [advance, List.getElem?_zipWith]
    constructor
    · intro marked
      rcases first : s[j]? with _ | m <;> rcases test : (a.places text)[j]? with _ | n <;> simp_all
    · rintro ⟨_, marked, rfl, test⟩
      rw [marked, test]
      rfl

theorem places_textStart : (Anchor.textStart.places text)[i]? = some true ↔ i = 0 := by
  simp only [Anchor.places, Anchor.beside, List.getElem?_zipWith]
  cases i with
  | zero => cases text <;> simp [Anchor.admits]
  | succ i =>
    rw [List.getElem?_cons_succ, List.getElem?_map]
    rcases text[i]? with _ | symbol
    · simp
    · rcases (text.map some ++ [none])[i + 1]? with _ | after <;> simp [Anchor.admits]

theorem places_textEnd : (Anchor.textEnd.places text)[i]? = some true ↔ i = text.length := by
  simp only [Anchor.places, Anchor.beside, List.getElem?_zipWith, List.getElem?_append,
    List.length_map]
  rcases Nat.lt_trichotomy i text.length with inside | rfl | outside
  · rw [if_pos inside, List.getElem?_map, List.getElem?_eq_getElem inside]
    rcases (none :: text.map some)[i]? with _ | before <;> simp [Anchor.admits, inside.ne]
  · rw [if_neg (Nat.lt_irrefl _), Nat.sub_self,
      List.getElem?_eq_getElem (l := none :: text.map some) (by simp)]
    simp [Anchor.admits]
  · rw [if_neg outside.not_gt, List.getElem?_eq_none (l := none :: text.map some) (by simpa)]
    simp [outside.ne']

/-- The only word from the start of a text to its end is the whole text. -/
theorem spells_whole : Spells text 0 w text.length ↔ text = w.map some := by
  constructor
  · rintro ⟨length, spelled⟩
    rw [Nat.zero_add] at length
    refine List.ext_getElem (by rw [List.length_map, length]) fun k inside _ => ?_
    have there := spelled k w[k] (List.getElem?_eq_getElem (length ▸ inside))
    rw [Nat.zero_add, List.getElem?_eq_getElem inside] at there
    rw [List.getElem_map]
    exact Option.some.inj there
  · rintro rfl
    exact ⟨by simp, fun k c found => by simp [found]⟩

theorem advance_append (rs ss : List Regex) (s : Places) :
    (sequence (rs ++ ss)).advance text s =
      (sequence ss).advance text ((sequence rs).advance text s) := by
  induction rs generalizing s with
  | nil => rfl
  | cons r rs ih => exact ih _

/-- Between tests of the start and of the end, an expression matches the texts of its language. -/
theorem search_between (free : (sequence rs).AnchorFree) (text : List (Option Char)) :
    (sequence (anchor .textStart :: (rs ++ [anchor .textEnd]))).search text = true ↔
      ∃ w ∈ (sequence rs).language, text = w.map some := by
  have takes := ((takes_anchor .textStart).comp ((takes_advance free).comp
    (takes_anchor .textEnd))) (List.replicate (text.length + 1) true) List.length_replicate
  have all : (sequence (anchor .textStart :: (rs ++ [anchor .textEnd]))).search text =
      ((anchor .textEnd).advance text ((sequence rs).advance text
        ((anchor .textStart).advance text (List.replicate (text.length + 1) true)))).any id := by
    rw [search]
    exact congrArg (·.any id) (advance_append rs _ _)
  rw [all, List.any_eq_true]
  simp only [id_eq, exists_eq_right, List.mem_iff_getElem?, takes.2, places_textStart,
    places_textEnd]
  constructor
  · rintro ⟨_, _, _, _, ⟨rfl, rfl⟩, _, ⟨w, mem, spelled⟩, rfl, same⟩
    exact ⟨w, mem, spells_whole.1 (same ▸ spelled)⟩
  · rintro ⟨w, mem, whole⟩
    exact ⟨text.length, 0, by simp, 0, ⟨rfl, rfl⟩, text.length, ⟨w, mem, spells_whole.2 whole⟩,
      rfl, rfl⟩

end QuadIndex.Regex
