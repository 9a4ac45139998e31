import PostfixCalc.Text.Cluster.Role

/-!
# Clusters of characters

A text is cut into clusters, each of which a reader takes for one character.  Whether the next
character still belongs to a cluster depends on the characters of that cluster alone.

Main results:

- `flatten_clusters`: the clusters of a text in a row are the text.
- `clusters_of_ascii`: the printable characters below `0x7F` are clusters of their own.
-/

namespace PostfixCalc

namespace Cluster

/-! ## The end of a cluster -/

/-- A pictograph with its marks, and a joiner at the end; the last character comes first. -/
def endsInJoinedPictograph : List Char → Bool
  | [] => false
  | last :: earlier =>
    last == ClusterRole.zeroWidthJoiner &&
      (earlier.dropWhile fun c => ClusterRole.ofChar c == .extending).head?.any isPictographic

/-- A consonant and behind it marks of which one links it to another consonant; the last character
comes first. -/
def endsInLinkedConsonant (cluster : List Char) : Bool :=
  (cluster.takeWhile isConjunctMark).any isConjunctLinker &&
    (cluster.dropWhile isConjunctMark).head?.any isConjunctConsonant

/-- An odd number of letters of flags, of which the last one lacks its partner. -/
def endsInHalfFlag (cluster : List Char) : Bool :=
  (cluster.takeWhile fun c => ClusterRole.ofChar c == .regional).length % 2 == 1

/-- Whether the next character belongs to a cluster, given the characters of that cluster from the
last one backwards. -/
def joins (cluster : List Char) (next : Char) : Bool :=
  match cluster with
  | [] => false
  | last :: _ =>
    if last = '\r' ∧ next = '\n' then true
    else
      match ClusterRole.ofChar last, ClusterRole.ofChar next with
      | .control, _ | _, .control => false
      | _, .extending | _, .joiner | _, .spacing => true
      | .prepending, _ => true
      | .leading, .leading | .leading, .vowel | .leading, .syllable _ => true
      | .vowel, .vowel | .vowel, .trailing => true
      | .syllable false, .vowel | .syllable _, .trailing => true
      | .trailing, .trailing => true
      | .regional, .regional => endsInHalfFlag cluster
      | _, .other =>
        (isConjunctConsonant next && endsInLinkedConsonant cluster) ||
          (isPictographic next && endsInJoinedPictograph cluster)
      | _, _ => false

/-! ## Cutting a text -/

/-- Cut the rest of a text, given the characters of the cluster under way from the last one
backwards. -/
def cutFrom (cluster : List Char) : List Char → List (List Char)
  | [] => [cluster.reverse]
  | c :: text =>
    if joins cluster c then cutFrom (c :: cluster) text
    else cluster.reverse :: cutFrom [c] text

end Cluster

/-- The clusters of a text. -/
def clusters : List Char → List (List Char)
  | [] => []
  | c :: text => Cluster.cutFrom [c] text

/-- Cutting the rest of a text loses nothing. -/
theorem Cluster.flatten_cutFrom (cluster text : List Char) :
    (cutFrom cluster text).flatten = cluster.reverse ++ text := by
  induction text generalizing cluster with
  | nil => simp [cutFrom]
  | cons c text ih =>
    rw [cutFrom]
    split
    · rw [ih, List.reverse_cons, List.append_assoc]
      rfl
    · rw [List.flatten_cons, ih]
      rfl

/-- The clusters of a text in a row are the text. -/
theorem flatten_clusters (text : List Char) : (clusters text).flatten = text := by
  cases text with
  | nil => rfl
  | cons c text => exact Cluster.flatten_cutFrom [c] text

/-- A printable character below `0x7F` belongs to no cluster with another such character. -/
theorem Cluster.joins_of_ascii {last next : Char} (hlast : 0x20 ≤ last.toNat ∧ last.toNat < 0x7F)
    (hnext : 0x20 ≤ next.toNat ∧ next.toNat < 0x7F) (earlier : List Char) :
    joins (last :: earlier) next = false := by
  have hbreak : ¬(last = '\r' ∧ next = '\n') := by
    rintro ⟨rfl, _⟩
    exact absurd hlast.1 (by decide)
  have hconsonant : isConjunctConsonant next = false :=
    CodeRanges.covers_eq_false (by decide : CodeRanges.isAscendingFrom 0x7F _ = true) hnext.2
  have hpictograph : isPictographic next = false :=
    CodeRanges.covers_eq_false (by decide +kernel : CodeRanges.isAscendingFrom 0x7F _ = true)
      hnext.2
  simp only [joins, hbreak, if_false, ClusterRole.ofChar_of_ascii hlast.1 hlast.2,
    ClusterRole.ofChar_of_ascii hnext.1 hnext.2, hconsonant, hpictograph, Bool.false_and,
    Bool.or_self]

/-- Behind a printable character below `0x7F` such characters are cut one by one. -/
theorem Cluster.cutFrom_of_ascii {c : Char} {text : List Char}
    (h : ∀ d ∈ c :: text, 0x20 ≤ d.toNat ∧ d.toNat < 0x7F) :
    cutFrom [c] text = (c :: text).map fun d => [d] := by
  induction text generalizing c with
  | nil => rfl
  | cons d text ih =>
    have hsplit := joins_of_ascii (h c List.mem_cons_self)
      (h d (List.mem_cons_of_mem c List.mem_cons_self)) []
    rw [cutFrom, hsplit, if_neg Bool.false_ne_true, ih fun e he => h e (List.mem_cons_of_mem c he)]
    rfl

/-- The printable characters below `0x7F` are clusters of their own. -/
theorem clusters_of_ascii {text : List Char}
    (h : ∀ c ∈ text, 0x20 ≤ c.toNat ∧ c.toNat < 0x7F) : clusters text = text.map fun c => [c] := by
  cases text with
  | nil => rfl
  | cons c text => exact Cluster.cutFrom_of_ascii h

end PostfixCalc
