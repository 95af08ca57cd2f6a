/-!
# BLAKE3

The hash function BLAKE3 on byte strings of any length, as far as its first eight output words.
Input is cut into chunks of 1024 bytes, each chunk into blocks of 64 bytes. The blocks of a chunk
are chained by the compression function, and the chunks are the leaves of a binary tree whose left
branches are as large and complete as possible.
-/

namespace MarkupForest.Digest.Blake3

/-- The words that initialise the state. -/
def initial : Vector UInt32 8 :=
  #v[0x6A09E667, 0xBB67AE85, 0x3C6EF372, 0xA54FF53A, 0x510E527F, 0x9B05688C, 0x1F83D9AB, 0x5BE0CD19]

/-- The order in which a round takes the message words of the round before. -/
def schedule : Vector (Fin 16) 16 :=
  #v[2, 6, 3, 10, 7, 0, 4, 13, 1, 11, 12, 5, 9, 14, 15, 8]

/-- Marks the first block of a chunk. -/
def chunkStart : UInt32 := 1

/-- Marks the last block of a chunk. -/
def chunkEnd : UInt32 := 2

/-- Marks a node above the leaves. -/
def parent : UInt32 := 4

/-- Marks the top of the tree. -/
def top : UInt32 := 8

/-- Rotates a word to the right. -/
def rotate (x : UInt32) (n : UInt32) : UInt32 :=
  (x >>> n) ||| (x <<< (32 - n))

/-- Mixes two message words into four words of the state. -/
def mix (v : Vector UInt32 16) (a b c d : Fin 16) (x y : UInt32) : Vector UInt32 16 :=
  let v := v.set a (v[a] + v[b] + x)
  let v := v.set d (rotate (v[d] ^^^ v[a]) 16)
  let v := v.set c (v[c] + v[d])
  let v := v.set b (rotate (v[b] ^^^ v[c]) 12)
  let v := v.set a (v[a] + v[b] + y)
  let v := v.set d (rotate (v[d] ^^^ v[a]) 8)
  let v := v.set c (v[c] + v[d])
  v.set b (rotate (v[b] ^^^ v[c]) 7)

/-- One round: the columns of the state, then its diagonals. -/
def round (v m : Vector UInt32 16) : Vector UInt32 16 :=
  let v := mix v 0 4 8 12 m[0] m[1]
  let v := mix v 1 5 9 13 m[2] m[3]
  let v := mix v 2 6 10 14 m[4] m[5]
  let v := mix v 3 7 11 15 m[6] m[7]
  let v := mix v 0 5 10 15 m[8] m[9]
  let v := mix v 1 6 11 12 m[10] m[11]
  let v := mix v 2 7 8 13 m[12] m[13]
  mix v 3 4 9 14 m[14] m[15]

/-- The message words in the order of the next round. -/
def permute (m : Vector UInt32 16) : Vector UInt32 16 :=
  schedule.map fun i => m[i]

/-- A number of rounds, with the message words reordered between them. -/
def rounds : Nat → Vector UInt32 16 → Vector UInt32 16 → Vector UInt32 16
  | 0, v, _ => v
  | n + 1, v, m => rounds n (round v m) (permute m)

/-- What the compression function is applied to. -/
structure Block where
  /-- The chaining value from the blocks before. -/
  chain : Vector UInt32 8
  /-- The message words. -/
  words : Vector UInt32 16
  /-- The number of the chunk. -/
  counter : UInt64
  /-- The number of message bytes. -/
  length : UInt32
  /-- The marks of the block. -/
  flags : UInt32

/-- The compression function: seven rounds, then the two halves of the state are added bit by bit.
-/
def Block.compress (b : Block) : Vector UInt32 8 :=
  let start : Vector UInt32 16 :=
    #v[b.chain[0], b.chain[1], b.chain[2], b.chain[3],
      b.chain[4], b.chain[5], b.chain[6], b.chain[7],
      initial[0], initial[1], initial[2], initial[3],
      b.counter.toUInt32, (b.counter >>> 32).toUInt32, b.length, b.flags]
  let v := rounds 7 start b.words
  Vector.ofFn fun i : Fin 8 => v[i.val] ^^^ v[i.val + 8]

/-- The byte at an index, zero past the end. -/
def byteAt (bytes : Array UInt8) (i : Nat) : UInt32 :=
  (bytes[i]?.getD 0).toUInt32

/-- The word that starts at an index, lowest byte first. -/
def wordAt (bytes : Array UInt8) (i : Nat) : UInt32 :=
  byteAt bytes i ||| byteAt bytes (i + 1) <<< 8 ||| byteAt bytes (i + 2) <<< 16
    ||| byteAt bytes (i + 3) <<< 24

/-- The sixteen words that start at an index. -/
def wordsAt (bytes : Array UInt8) (i : Nat) : Vector UInt32 16 :=
  Vector.ofFn fun k : Fin 16 => wordAt bytes (i + 4 * k.val)

/-- The last block of a chunk, chained to the blocks before it. A chunk has at least one block,
which is empty only if the whole input is. -/
def chunk (bytes : Array UInt8) (index : Nat) : Block :=
  let start := 1024 * index
  let length := min 1024 (bytes.size - start)
  let last := (length - 1) / 64
  let blockAt (k : Nat) (chain : Vector UInt32 8) : Block :=
    { chain := chain
      words := wordsAt bytes (start + 64 * k)
      counter := UInt64.ofNat index
      length := UInt32.ofNat (min 64 (length - 64 * k))
      flags := (if k = 0 then chunkStart else 0) ||| (if k = last then chunkEnd else 0) }
  blockAt last ((List.range last).foldl (fun chain k => (blockAt k chain).compress) initial)

/-- The node above two subtrees, given their chaining values. -/
def join (left right : Vector UInt32 8) : Block :=
  { chain := initial
    words := left ++ right
    counter := 0
    length := 64
    flags := parent }

/-- The top of the tree over `count` chunks from a first one on. -/
def tree (bytes : Array UInt8) (first count : Nat) : Block :=
  if _h : count ≤ 1 then chunk bytes first
  else
    let left := Nat.pow 2 (count - 1).log2
    join (tree bytes first left).compress (tree bytes (first + left) (count - left)).compress
termination_by count
decreasing_by
  all_goals
    have h1 : Nat.pow 2 (count - 1).log2 ≤ count - 1 := Nat.log2_self_le (by omega)
    have h2 : 0 < Nat.pow 2 (count - 1).log2 := Nat.two_pow_pos _
    omega

/-- The first eight words of the hash of a byte string. -/
def hash (bytes : Array UInt8) : Vector UInt32 8 :=
  let b := tree bytes 0 ((bytes.size + 1023) / 1024)
  { b with flags := b.flags ||| top }.compress

/-- The first eight bytes of the hash of a byte string as a number, lowest byte first. -/
def hash64 (bytes : List UInt8) : UInt64 :=
  let h := hash bytes.toArray
  h[0].toUInt64 ||| h[1].toUInt64 <<< 32

end MarkupForest.Digest.Blake3
