import Replication.Proofs.Pieces
import Replication.Proofs.Replica.Partition
import Replication.Proofs.Replica.Setup

/-!
# Cutting a proof into partitions

Ordinals number the challenges of a replica across partitions, so it does not matter into how many
partitions they are cut. A partition is proved, and accepted, ordinal by ordinal
(`prove_eq_ok_iff_ordinals`, `verify_eq_ok_true_iff_ordinals`), and the ordinals of all partitions
are those of one large partition. Hence the proofs of all partitions, joined, are the proofs of the
large one, on the prover's side and on the verifier's.
-/

namespace Replication

/-- Parameters that differ in the number of challenges of a partition only. -/
def Params.withPartitionSize (params : Params) (size : Nat) : Params :=
  { params with plan := ⟨params.plan.layers, size⟩ }

namespace Replica

variable {settings : Settings} {params : Params} {statement : Statement} {w : Witness}
  {proofs : List ChallengeProof} {parts : List (List ChallengeProof)}

/-- The ordinals of a statement's partition. -/
def ordinalsOf (params : Params) (statement : Statement) : List Nat :=
  Challenge.ordinals params.plan.perPartition (statement.partition.getD 0)

/-- The node that a statement draws for an ordinal. -/
def nodeOf (params : Params) (statement : Statement) (ordinal : Nat) : Nat :=
  Challenge.draw statement.replicaId statement.seed params.graph.size ordinal

/-- The challenges of a statement are the nodes of its ordinals, as long as these fit 32 bits. -/
theorem challengesOf_eq_ok_iff {challenges : List Nat} :
    challengesOf params statement = .ok challenges ↔
      (∀ j ∈ ordinalsOf params statement, j < Word.halfLimit) ∧
        (ordinalsOf params statement).map (nodeOf params statement) = challenges := by
  show Challenge.derive _ _ _ _ _ = _ ↔ _
  rw [Challenge.derive_eq_ok_iff, and_iff_right params.graph.two_le_size]
  rfl

/-! ## The prover -/

/-- The ordinal fits, and the witness proves the node drawn for it so. -/
def ProvesOrdinal (settings : Settings) (params : Params) (statement : Statement) (w : Witness)
    (ordinal : Nat) (p : ChallengeProof) : Prop :=
  ordinal < Word.halfLimit ∧
    proveChallenge settings params statement w (nodeOf params statement ordinal) = .ok p

/-- Which partition is asked about does not matter to the proof of a single ordinal, and neither
does the size of partitions: the prover reads them for the ordinals only, also where it verifies. -/
theorem provesOrdinal_withPartition (partition : Option Nat) :
    ProvesOrdinal settings params (statement.withPartition partition) w
      = ProvesOrdinal settings params statement w := rfl

/-- How an ordinal is proved does not depend on the size of a partition. -/
theorem provesOrdinal_withPartitionSize (size : Nat) :
    ProvesOrdinal settings (params.withPartitionSize size) statement w
      = ProvesOrdinal settings params statement w := rfl

/-- A partition is proved exactly if the witness is that of a known commitment and each ordinal of
the partition is proved. -/
theorem prove_eq_ok_iff_ordinals :
    prove settings params statement w = .ok proofs ↔
      Provable params.plan.layers statement.commitment w ∧
        List.Forall₂ (ProvesOrdinal settings params statement w) (ordinalsOf params statement)
          proofs := by
  rw [prove_eq_ok_iff_provable]
  unfold ProvesOrdinal
  simp only [challengesOf_eq_ok_iff, Result.mapM_eq_ok_iff, List.forall₂_and_left, and_assoc,
    exists_and_left, exists_eq_left', List.forall₂_map_left_iff]

/-- All partitions are proved exactly if every ordinal of every partition is. -/
theorem proveAll_eq_ok_iff {partitions : Nat} :
    (scheme settings).proveAll params statement w partitions = .ok parts ↔
      partitions ≠ 0 ∧ Provable params.plan.layers statement.commitment w ∧
        List.Forall₂ (List.Forall₂ (ProvesOrdinal settings params statement w))
          ((List.range partitions).map (Challenge.ordinals params.plan.perPartition)) parts := by
  unfold Scheme.proveAll
  by_cases hzero : partitions = 0
  · simp [hzero, refuse]
  have heach : ∀ k proofs,
      prove settings params (statement.withPartition (some k)) w = .ok proofs ↔
        Provable params.plan.layers statement.commitment w ∧
          List.Forall₂ (ProvesOrdinal settings params statement w)
            (Challenge.ordinals params.plan.perPartition k) proofs := by
    intro k proofs
    rw [prove_eq_ok_iff_ordinals, provesOrdinal_withPartition]
    rfl
  -- there is a partition, so what each of them asks of the witness is asked
  have hpos : 1 ≤ partitions := by omega
  rw [if_neg hzero, Result.forRange_eq_mapM, ← List.range_eq_range', Result.mapM_eq_ok_iff]
  show List.Forall₂ (fun k proofs =>
    prove settings params (statement.withPartition (some k)) w = .ok proofs) _ _ ↔ _
  simp only [heach, List.forall₂_and_left, Result.forall_mem_range_const hpos,
    List.forall₂_map_left_iff, ne_eq, hzero, not_false_eq_true, true_and]

/-! ## The verifier -/

/-- Two roots, both canonical, are those that a known commitment hashes. -/
def Committed (family : HashFamily) (known : Option Commitment) (columns replica : Element) :
    Prop :=
  ∃ commitment, known = some commitment ∧ columns.IsCanonical ∧ replica.IsCanonical ∧
    family.pair columns replica = .ok commitment.replica

/-- The ordinal fits, and a proof under the given roots is accepted at the node drawn for it. -/
def AnswersOrdinal (params : Params) (statement : Statement) (columns replica : Element)
    (ordinal : Nat) (p : ChallengeProof) : Prop :=
  ordinal < Word.halfLimit ∧ SharesRoots columns replica p ∧
    p.verify params statement (nodeOf params statement ordinal) = .ok true

/-- Neither the partition asked about nor the size of partitions matters to the answer to a single
ordinal. -/
theorem answersOrdinal_withPartition (partition : Option Nat) (columns replica : Element) :
    AnswersOrdinal params (statement.withPartition partition) columns replica
      = AnswersOrdinal params statement columns replica := rfl

theorem answersOrdinal_withPartitionSize (size : Nat) (columns replica : Element) :
    AnswersOrdinal (params.withPartitionSize size) statement columns replica
      = AnswersOrdinal params statement columns replica := rfl

/-- The roots of a proof of some ordinal are the given ones. -/
theorem sharesRoots_of_mem {columns replica : Element} {ordinals : List Nat}
    (h : List.Forall₂ (AnswersOrdinal params statement columns replica) ordinals proofs)
    {p : ChallengeProof} (hp : p ∈ proofs) : SharesRoots columns replica p := by
  obtain ⟨ordinal, -, -, hroots, -⟩ := exists_mem_of_forall₂ h hp
  exact hroots

/-- Proofs are accepted exactly if they answer the ordinals of their statement one by one, under
roots that are committed to. -/
theorem verify_eq_ok_true_iff_ordinals :
    verify params statement proofs = .ok true ↔
      proofs ≠ [] ∧ ∃ columns replica,
        Committed params.treeShape.family statement.commitment columns replica ∧
          List.Forall₂ (AnswersOrdinal params statement columns replica)
            (ordinalsOf params statement) proofs := by
  rw [verify_eq_ok_true_iff]
  constructor
  · rintro ⟨commitment, first, challenges, hknown, hfirst, h⟩
    obtain ⟨hfit, rfl⟩ := challengesOf_eq_ok_iff.mp h.challenges_eq
    refine ⟨fun hnil => by simp [hnil] at hfirst, first.columnRoot, first.replicaRoot,
      ⟨commitment, hknown, h.columnRoot_canonical, h.replicaRoot_canonical, h.pair_eq⟩, ?_⟩
    exact (List.forall₂_and_left _ _).mpr
      ⟨hfit, List.forall₂_map_left_iff.mp h.each.flip⟩
  · rintro ⟨hne, columns, replica, ⟨commitment, hknown, hcolumns, hreplica, hpair⟩, heach⟩
    obtain ⟨first, rest, rfl⟩ := List.exists_cons_of_ne_nil hne
    obtain ⟨rfl, rfl⟩ := sharesRoots_of_mem heach List.mem_cons_self
    have hlen := heach.length_eq
    rw [ordinalsOf, Challenge.ordinals, List.length_range'] at hlen
    obtain ⟨hfit, hverify⟩ := (List.forall₂_and_left _ _).mp heach
    exact ⟨commitment, first, _, hknown, rfl, hlen.symm, challengesOf_eq_ok_iff.mpr ⟨hfit, rfl⟩,
      hcolumns, hreplica, hpair, (List.forall₂_map_left_iff.mpr hverify).flip⟩

/-- What acceptance of a partition asks, it asks of the roots that all its proofs share. -/
theorem committed_of_verify {columns replica : Element}
    (hshared : ∀ p ∈ proofs, SharesRoots columns replica p)
    (h : verify params statement proofs = .ok true) :
    Committed params.treeShape.family statement.commitment columns replica ∧
      List.Forall₂ (AnswersOrdinal params statement columns replica)
        (ordinalsOf params statement) proofs := by
  obtain ⟨hne, columns', replica', hcommitted, heach⟩ := verify_eq_ok_true_iff_ordinals.mp h
  obtain ⟨first, rest, rfl⟩ := List.exists_cons_of_ne_nil hne
  obtain ⟨rfl, rfl⟩ := hshared first List.mem_cons_self
  obtain ⟨rfl, rfl⟩ := sharesRoots_of_mem heach List.mem_cons_self
  exact ⟨hcommitted, heach⟩

/-- Partitions are all accepted exactly if each is on its own. -/
theorem verifyPartitionsFrom_all_true_iff {k : Nat} :
    (∃ answers, verifyPartitionsFrom params statement k parts = .ok answers ∧
      answers.all id = true) ↔
      List.Forall₂ (fun k proofs =>
        verify params (statement.withPartition (some k)) proofs = .ok true)
        (List.range' k parts.length) parts := by
  induction parts generalizing k with
  | nil => simp [verifyPartitionsFrom]
  | cons proofs rest ih =>
    rw [List.length_cons, List.range'_succ, List.forall₂_cons, ← ih]
    constructor
    · rintro ⟨answers, h, hall⟩
      obtain ⟨valid, hvalid, h⟩ := Result.bind_eq_ok h
      obtain ⟨others, hothers, h⟩ := Result.bind_eq_ok h
      cases h
      rw [List.all_cons, Bool.and_eq_true] at hall
      exact ⟨by rw [hvalid, show valid = true from hall.1], others, hothers, hall.2⟩
    · rintro ⟨hvalid, others, hothers, hall⟩
      refine ⟨true :: others, ?_, by simpa using hall⟩
      rw [verifyPartitionsFrom, hvalid, Result.ok_bind, hothers]
      rfl

/-- Partitions are accepted together exactly if each is on its own and all share the roots of the
first proof. -/
theorem verifyAll_eq_ok_true_iff :
    verifyAll params statement parts = .ok true ↔
      ∃ first firsts rest, parts = (first :: firsts) :: rest ∧
        (∀ proofs ∈ parts, ∀ p ∈ proofs, SharesRoots first.columnRoot first.replicaRoot p) ∧
        List.Forall₂ (fun k proofs =>
          verify params (statement.withPartition (some k)) proofs = .ok true)
          (List.range parts.length) parts := by
  rw [List.range_eq_range', ← verifyPartitionsFrom_all_true_iff]
  unfold verifyAll
  split
  case h_1 first firsts rest =>
    by_cases hshared : ∀ proofs ∈ (first :: firsts) :: rest, ∀ p ∈ proofs,
        SharesRoots first.columnRoot first.replicaRoot p
    · rw [if_pos hshared, Result.bind_eq_ok_iff]
      simp only [Result.pure_eq_ok, Except.ok.injEq]
      constructor
      · intro h
        exact ⟨first, firsts, rest, rfl, hshared, h⟩
      · rintro ⟨_, _, _, -, -, h⟩
        exact h
    · rw [if_neg hshared]
      constructor
      · simp
      · rintro ⟨_, _, _, heq, h, -⟩
        cases heq
        exact absurd h hshared
  case h_2 hother =>
    constructor
    · simp [refuse]
    · rintro ⟨first, firsts, rest, heq, -⟩
      exact absurd heq (hother first firsts rest)

/-- Partitions with a proof each are accepted together exactly if every ordinal of every partition
is answered under the same roots. -/
theorem verifyAll_eq_ok_true_iff_ordinals (hne : parts ≠ [])
    (hparts : ∀ proofs ∈ parts, proofs ≠ []) :
    verifyAll params statement parts = .ok true ↔ ∃ columns replica,
      Committed params.treeShape.family statement.commitment columns replica ∧
        List.Forall₂ (List.Forall₂ (AnswersOrdinal params statement columns replica))
          ((List.range parts.length).map (Challenge.ordinals params.plan.perPartition))
          parts := by
  simp only [List.forall₂_map_left_iff]
  rw [verifyAll_eq_ok_true_iff]
  constructor
  · rintro ⟨first, firsts, rest, rfl, hshared, heach⟩
    have hpairs := (List.forall₂_and_left _ _).mpr ⟨hshared, heach.flip⟩
    have hcommitted := (hpairs.imp fun _ _ h => committed_of_verify h.1 h.2).flip
    obtain ⟨hcommitted, hanswers⟩ := (List.forall₂_and_left _ _).mp hcommitted
    exact ⟨first.columnRoot, first.replicaRoot, hcommitted 0 (List.mem_range.mpr (by simp)),
      hanswers⟩
  · rintro ⟨columns, replica, hcommitted, heach⟩
    obtain ⟨part, rest, rfl⟩ := List.exists_cons_of_ne_nil hne
    obtain ⟨first, firsts, rfl⟩ := List.exists_cons_of_ne_nil (hparts part List.mem_cons_self)
    have hshared : ∀ proofs ∈ (first :: firsts) :: rest, ∀ p ∈ proofs,
        SharesRoots columns replica p := by
      intro proofs hproofs p hp
      obtain ⟨k, -, hanswers⟩ := exists_mem_of_forall₂ heach hproofs
      exact sharesRoots_of_mem hanswers hp
    obtain ⟨rfl, rfl⟩ := hshared _ List.mem_cons_self first List.mem_cons_self
    refine ⟨first, firsts, rest, rfl, hshared, ?_⟩
    have hpairs := (List.forall₂_and_left _ _).mpr ⟨hparts, heach.flip⟩
    refine List.Forall₂.flip (hpairs.imp ?_)
    rintro proofs k ⟨hproofs, hanswers⟩
    exact verify_eq_ok_true_iff_ordinals.mpr ⟨hproofs, _, _, hcommitted, hanswers⟩

/-! ## One large partition -/

/-- Whatever corresponds to the ordinals of partitions comes in as many parts of full size. -/
theorem lengths_of_forall₂_ordinals {R : Nat → ChallengeProof → Prop} {partitions size : Nat}
    (h : List.Forall₂ (List.Forall₂ R)
      ((List.range partitions).map (Challenge.ordinals size)) parts) :
    parts.length = partitions ∧ ∀ proofs ∈ parts, proofs.length = size := by
  constructor
  · rw [← h.length_eq, List.length_map, List.length_range]
  · intro proofs hproofs
    obtain ⟨ordinals, hmem, heach⟩ := exists_mem_of_forall₂ h hproofs
    obtain ⟨k, -, rfl⟩ := List.mem_map.mp hmem
    rw [← heach.length_eq, Challenge.ordinals, List.length_range']

/-- The ordinals of one large partition are those of the small ones in a row. -/
theorem ordinalsOf_withPartitionSize (params : Params) (statement : Statement)
    (size partitions : Nat) :
    ordinalsOf (params.withPartitionSize (size * partitions)) (statement.withPartition (some 0))
      = ((List.range partitions).map (Challenge.ordinals size)).flatten :=
  (Challenge.flatten_ordinals size partitions).symm

/-- The proofs of a large partition are those of all partitions, joined. -/
theorem prove_withPartitionSize_eq_ok_iff {size partitions : Nat} (hpos : 1 ≤ partitions) :
    prove settings (params.withPartitionSize (size * partitions))
        (statement.withPartition (some 0)) w = .ok proofs ↔
      ∃ parts, (scheme settings).proveAll (params.withPartitionSize size) statement w partitions
          = .ok parts ∧ parts.flatten = proofs := by
  rw [prove_eq_ok_iff_ordinals, ordinalsOf_withPartitionSize, forall₂_flatten_iff]
  simp only [proveAll_eq_ok_iff, provesOrdinal_withPartition, provesOrdinal_withPartitionSize]
  constructor
  · rintro ⟨hprovable, parts, heach, hproofs⟩
    exact ⟨parts, ⟨by omega, hprovable, heach⟩, hproofs⟩
  · rintro ⟨parts, ⟨-, hprovable, heach⟩, hproofs⟩
    exact ⟨hprovable, parts, heach, hproofs⟩

/-- Full partitions are accepted exactly if their proofs, joined, are those of the large one. -/
theorem verifyAll_withPartitionSize_iff {size : Nat} (hsize : 1 ≤ size) (hne : parts ≠ [])
    (hlen : ∀ proofs ∈ parts, proofs.length = size) :
    verifyAll (params.withPartitionSize size) statement parts = .ok true ↔
      verify (params.withPartitionSize (size * parts.length)) (statement.withPartition (some 0))
        parts.flatten = .ok true := by
  have hparts : ∀ proofs ∈ parts, proofs ≠ [] := by
    intro proofs hproofs
    exact List.ne_nil_of_length_pos (by rw [hlen proofs hproofs]; omega)
  rw [verifyAll_eq_ok_true_iff_ordinals hne hparts, verify_eq_ok_true_iff_ordinals,
    ordinalsOf_withPartitionSize]
  simp only [forall₂_flatten_iff, answersOrdinal_withPartition, answersOrdinal_withPartitionSize]
  constructor
  · rintro ⟨columns, replica, hcommitted, heach⟩
    obtain ⟨part, hpart⟩ := List.exists_mem_of_ne_nil parts hne
    refine ⟨?_, columns, replica, hcommitted, parts, heach, rfl⟩
    exact fun hnil => hparts part hpart (List.flatten_eq_nil_iff.mp hnil part hpart)
  · rintro ⟨-, columns, replica, hcommitted, parts', heach, hjoin⟩
    -- the ordinals cut the joined proofs into pieces of one size, which are the parts again
    have hsame : parts' = parts := by
      rw [← pieces_flatten hsize (lengths_of_forall₂_ordinals heach).2, hjoin,
        pieces_flatten hsize hlen]
    exact ⟨columns, replica, hcommitted, hsame ▸ heach⟩

/-- Partitioning is transparent, whatever the witness is and whether the prover verifies what it
proves or not. All partitions can be proved exactly if one partition with all their challenges can,
and joined their proofs are its proofs; and full partitions are accepted exactly if their proofs,
joined, are accepted as the proofs of the large partition. -/
theorem partitioning_transparent (settings : Settings) (params : Params) (statement : Statement)
    (size : Nat) {partitions : Nat} (hpos : 1 ≤ partitions) :
    (∀ w,
      ((∃ parts, (scheme settings).proveAll (params.withPartitionSize size) statement w partitions
          = .ok parts) ↔
        ∃ proofs, prove settings (params.withPartitionSize (size * partitions))
          (statement.withPartition (some 0)) w = .ok proofs) ∧
      ∀ parts, (scheme settings).proveAll (params.withPartitionSize size) statement w partitions
          = .ok parts →
        parts.length = partitions ∧ (∀ proofs ∈ parts, proofs.length = size) ∧
          prove settings (params.withPartitionSize (size * partitions))
            (statement.withPartition (some 0)) w = .ok parts.flatten) ∧
    (1 ≤ size → ∀ parts : List (List ChallengeProof), parts.length = partitions →
      (∀ proofs ∈ parts, proofs.length = size) →
      (verifyAll (params.withPartitionSize size) statement parts = .ok true ↔
        verify (params.withPartitionSize (size * partitions)) (statement.withPartition (some 0))
          parts.flatten = .ok true)) := by
  constructor
  · intro w
    simp only [prove_withPartitionSize_eq_ok_iff hpos]
    refine ⟨⟨fun ⟨parts, hparts⟩ => ⟨_, parts, hparts, rfl⟩,
      fun ⟨_, parts, hparts, _⟩ => ⟨parts, hparts⟩⟩, ?_⟩
    intro parts hparts
    obtain ⟨-, -, heach⟩ := proveAll_eq_ok_iff.mp hparts
    obtain ⟨hcount, hlen⟩ := lengths_of_forall₂_ordinals heach
    exact ⟨hcount, hlen, parts, hparts, rfl⟩
  · rintro hsize parts rfl hlen
    exact verifyAll_withPartitionSize_iff hsize (List.ne_nil_of_length_pos hpos) hlen

/-- Three partitions of the small sector with one challenge each are proved and accepted. -/
theorem sample_partitioning_transparent : ∃ params statement w parts,
    Params.ofSetup sampleSettings sampleShape .sha256 sampleSetup = .ok params ∧
      (scheme sampleSettings).proveAll (params.withPartitionSize 1) statement w 3 = .ok parts ∧
      prove sampleSettings (params.withPartitionSize (1 * 3)) (statement.withPartition (some 0)) w
        = .ok parts.flatten ∧
      verifyAll (params.withPartitionSize 1) statement parts = .ok true := by
  obtain ⟨params, nodes, commitment, w, replica, hparams, hmade, -, h⟩ := exists_sampleReplicated
  have hsame : params.withPartitionSize (1 * 3) = params := by
    obtain ⟨graph, plan, treeShape, dataFamily⟩ := params
    cases hmade.plan_eq
    rfl
  have hcount : params.plan.perPartition = 3 := by
    rw [hmade.plan_eq]
    rfl
  have hordinals : params.plan.perPartition * (0 + 1) ≤ Word.halfLimit := by
    rw [hcount]
    decide
  obtain ⟨proofs, -, hprove, -, -, -, hverify⟩ := exists_prove_accepted sampleSettings
    ⟨.zero, .zero, some commitment, some 0⟩ h (hmade.arity_mem (by decide))
    (by rw [hcount]; decide) rfl rfl hordinals
  obtain ⟨hproved, haccepted⟩ := partitioning_transparent sampleSettings params
    ⟨.zero, .zero, some commitment, some 0⟩ 1 (show 1 ≤ 3 by decide)
  obtain ⟨hproved, hjoined⟩ := hproved w
  obtain ⟨parts, hparts⟩ := hproved.mpr ⟨proofs, by rw [hsame]; exact hprove⟩
  obtain ⟨hlength, heach, hflatten⟩ := hjoined parts hparts
  refine ⟨params, _, w, parts, hparams, hparts, hflatten, ?_⟩
  -- the joined proofs are those of one partition of three challenges, which are accepted
  rw [hsame] at hflatten haccepted
  have hproofs : proofs = parts.flatten := Except.ok.inj (hprove.symm.trans hflatten)
  exact (haccepted (by decide) parts hlength heach).mpr (hproofs ▸ hverify)

end Replica

end Replication
