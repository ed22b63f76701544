import HlsEmit.Accelerator.Template

/-!
# The catalogue of accelerator blocks

The calling sequences of all blocks: the streams between their parts, the movers that fill the
streams from arrays, the routine itself, and the movers that write its results back.
-/

namespace HlsEmit.Accelerator

/-- A reduction of one vector. All of them share one sequence but for the routine. -/
def vectorReduction (routine : String) : Template where
  routine := routine
  roles := ["x", "res"]
  dataRole := "x"
  extents := [("n", .dim "x" 0)]
  lines := [
    "#pragma HLS DATAFLOW",
    "{DT} l_res;",
    "hls::stream<typename WideType<{DT}, 1 << {LP}>::t_TypeInt> l_strX;",
    "",
    "readVec2Stream<{DT}, 1 << {LP}>({x}, {n}, l_strX);",
    routine ++ "<{DT}, {LP}, {DT}>({n}, l_strX, l_res);",
    "{res} = l_res;"]

/-- The sum of a vector and a multiple of another one. -/
def axpy : Template where
  routine := "axpy"
  roles := ["alpha", "x", "y", "res"]
  dataRole := "x"
  extents := [("n", .dim "x" 0)]
  lines := [
    "#pragma HLS DATAFLOW",
    "hls::stream<typename WideType<{DT}, 1 << {LP}>::t_TypeInt> l_strX;",
    "hls::stream<typename WideType<{DT}, 1 << {LP}>::t_TypeInt> l_strY;",
    "hls::stream<typename WideType<{DT}, 1 << {LP}>::t_TypeInt> l_strR;",
    "",
    "readVec2Stream<{DT}, 1 << {LP}>({x}, {n}, l_strX);",
    "readVec2Stream<{DT}, 1 << {LP}>({y}, {n}, l_strY);",
    "axpy<{DT}, 1 << {LP}>({n}, {alpha}, l_strX, l_strY, l_strR);",
    "writeStream2Vec<{DT}, {PE}>(l_strR, {n}, {res});"]

/-- The inner product of two vectors. -/
def dot : Template where
  routine := "dot"
  roles := ["x", "y", "res"]
  dataRole := "x"
  extents := [("n", .dim "x" 0)]
  lines := [
    "#pragma HLS DATAFLOW",
    "{DT} l_res;",
    "hls::stream<typename WideType<{DT}, 1 << {LP}>::t_TypeInt> l_strX;",
    "hls::stream<typename WideType<{DT}, 1 << {LP}>::t_TypeInt> l_strY;",
    "",
    "readVec2Stream<{DT}, 1 << {LP}>({x}, {n}, l_strX);",
    "readVec2Stream<{DT}, 1 << {LP}>({y}, {n}, l_strY);",
    "dot<{DT}, {LP}>({n}, l_strX, l_strY, l_res);",
    "{res} = l_res;"]

/-- A banded matrix times a vector, plus a multiple of another vector. -/
def gbmv : Template where
  routine := "gbmv"
  roles := ["alpha", "beta", "a", "x", "y", "res"]
  dataRole := "x"
  extents := [("n", .dim "x" 0), ("m", .dim "y" 0)]
  lines := [
    "#pragma HLS DATAFLOW",
    "hls::stream<typename WideType<{DT}, {PE}>::t_TypeInt> l_strA;",
    "hls::stream<typename WideType<{DT}, {PE}>::t_TypeInt> l_strX;",
    "hls::stream<typename WideType<{DT}, {PE}>::t_TypeInt> l_strYR;",
    "hls::stream<typename WideType<{DT}, {PE}>::t_TypeInt> l_strY;",
    "",
    "gbm2Stream<{DT}, {PE}>({n}, {kl}, {ku}, {a}, l_strA);",
    "vec2GbMatStream<{DT}, {PE}>({n}, {kl}, {ku}, {x}, l_strX);",
    "readVec2Stream<{DT}, 1 << {LP}>({y}, {m}, l_strY);",
    "gbmv<{DT}, {PE}, {n}>({m}, {n}, {kl}, {ku}, {alpha}, l_strA, l_strX, {beta}, l_strY, l_strYR);",
    "writeStream2Vec<{DT}, {PE}>(l_strYR, {m}, {res});"]

/-- A product of two matrices, plus a multiple of a third one. -/
def gemm : Template where
  routine := "gemm"
  roles := ["alpha", "beta", "A", "B", "C", "R"]
  dataRole := "A"
  extents := [
    ("m", .dim "A" 0),
    ("k", .dim "A" 1),
    ("n", .dim "B" 1),
    ("mn", .product "m" "n")]
  lines := [
    "#pragma HLS DATAFLOW",
    "hls::stream<typename WideType<{DT}, {PE}>::t_TypeInt> l_strA;",
    "hls::stream<typename WideType<{DT}, {PE}>::t_TypeInt> l_strB;",
    "hls::stream<typename WideType<{DT}, {PE}>::t_TypeInt> l_strC;",
    "hls::stream<typename WideType<{DT}, {PE}>::t_TypeInt> l_strSum;",
    "",
    "gemmMatAMover<{DT}, {PE}>({A}, {m}, {n}, {k}, l_strA);",
    "gemmMatBMover<{DT}, {PE}>({B}, {m}, {n}, {k}, l_strB);",
    "readVec2Stream<{DT}, {PE}>({C}, {mn}, l_strC);",
    "gemm<{DT}, {k}, {PE}, {mn}>({m}, {n}, {k}, {alpha}, l_strA, l_strB, {beta}, l_strC, l_strSum);",
    "writeStream2Vec<{DT}, {PE}>(l_strSum, {mn}, {R});"]

/-- A matrix times a vector, plus a multiple of another vector. -/
def gemv : Template where
  routine := "gemv"
  roles := ["alpha", "beta", "a", "x", "y", "res"]
  dataRole := "x"
  extents := [("m", .dim "a" 0), ("n", .dim "a" 1)]
  lines := [
    "#pragma HLS DATAFLOW",
    "hls::stream<typename WideType<{DT}, 1 << {LP}>::t_TypeInt> l_strA;",
    "hls::stream<typename WideType<{DT}, 1 << {LP}>::t_TypeInt> l_strX;",
    "hls::stream<typename WideType<{DT}, 1>::t_TypeInt> l_strY;",
    "hls::stream<typename WideType<{DT}, 1>::t_TypeInt> l_strYR;",
    "",
    "gem2Stream<{DT}, {PE}>({m}, {n}, {a}, l_strA);",
    "vec2GemStream<{DT}, {PE}>({m}, {n}, {x}, l_strX);",
    "readVec2Stream<{DT}, 1>({y}, {m}, l_strY);",
    "gemv<{DT}, {LP}>({m}, {n}, {alpha}, l_strA, l_strX, {beta}, l_strY, l_strYR);",
    "writeStream2Vec<{DT}, 1>(l_strYR, {m}, {res});"]

/-- The Euclidean length of a vector. -/
def nrm2 : Template where
  routine := "nrm2"
  roles := ["x", "res"]
  dataRole := "x"
  extents := [("n", .dim "x" 0)]
  lines := [
    "#pragma HLS DATAFLOW",
    "{DT} l_res;",
    "hls::stream<typename WideType<{DT}, 1 << {LP}>::t_TypeInt> l_strX;",
    "",
    "readVec2Stream<{DT}, 1 << {LP}>({x}, {n}, l_strX);",
    "nrm2<{DT}, {LP}>({n}, l_strX, l_res);",
    "{res} = l_res;"]

/-- A multiple of a vector. -/
def scal : Template where
  routine := "scal"
  roles := ["alpha", "x", "res"]
  dataRole := "x"
  extents := [("n", .dim "x" 0)]
  lines := [
    "#pragma HLS DATAFLOW",
    "hls::stream<typename WideType<{DT}, {PE}>::t_TypeInt> l_strX;",
    "hls::stream<typename WideType<{DT}, {PE}>::t_TypeInt> l_strR;",
    "",
    "readVec2Stream<{DT}, {PE}>({x}, {n}, l_strX);",
    "scal<{DT}, {PE}>({n}, {alpha}, l_strX, l_strR);",
    "writeStream2Vec<{DT}, {PE}>(l_strR, {n}, {res});"]

/-- The exchange of two vectors. -/
def swap : Template where
  routine := "swap"
  roles := ["x", "xres", "y", "yres"]
  dataRole := "x"
  extents := [("n", .dim "x" 0)]
  lines := [
    "#pragma HLS DATAFLOW",
    "hls::stream<typename WideType<{DT}, {PE}>::t_TypeInt> l_strX;",
    "hls::stream<typename WideType<{DT}, {PE}>::t_TypeInt> l_strResX;",
    "hls::stream<typename WideType<{DT}, {PE}>::t_TypeInt> l_strY;",
    "hls::stream<typename WideType<{DT}, {PE}>::t_TypeInt> l_strResY;",
    "",
    "readVec2Stream<{DT}, {PE}>({x}, {n}, l_strX);",
    "readVec2Stream<{DT}, {PE}>({y}, {n}, l_strY);",
    "swap<{DT}, {PE}>({n}, l_strX, l_strY, l_strResX, l_strResY);",
    "writeStream2Vec<{DT}, {PE}>(l_strResX, {n}, {xres});",
    "writeStream2Vec<{DT}, {PE}>(l_strResY, {n}, {yres});"]

/-- A symmetric matrix times a vector, plus a multiple of another vector. -/
def symv : Template where
  routine := "symv"
  roles := ["alpha", "beta", "a", "x", "y", "res"]
  dataRole := "x"
  extents := [("m", .dim "y" 0), ("n", .dim "x" 0)]
  lines := [
    "#pragma HLS DATAFLOW",
    "hls::stream<typename WideType<{DT}, {PE}>::t_TypeInt> l_strA;",
    "hls::stream<typename WideType<{DT}, {PE}>::t_TypeInt> l_strX;",
    "hls::stream<typename WideType<{DT}, {PE}>::t_TypeInt> l_strY;",
    "hls::stream<typename WideType<{DT}, {PE}>::t_TypeInt> l_strYR;",
    "",
    "symUp2Stream<{DT}, {PE}>({n}, {a}, l_strA);",
    "vec2SymStream<{DT}, {PE}>({n}, {x}, l_strX);",
    "readVec2Stream<{DT}, {PE}>({y}, {m}, l_strY);",
    "symv<{DT}, {LP}>({m}, {alpha}, l_strA, l_strX, {beta}, l_strY, l_strYR);",
    "writeStream2Vec<{DT}, {PE}>(l_strYR, {m}, {res});"]

/-- A triangular matrix times a vector, plus a multiple of another vector. -/
def trmv : Template where
  routine := "trmv"
  roles := ["alpha", "beta", "a", "x", "y", "res"]
  dataRole := "x"
  extents := [("n", .dim "x" 0)]
  lines := [
    "#pragma HLS DATAFLOW",
    "hls::stream<typename WideType<{DT}, {PE}>::t_TypeInt> l_strA;",
    "hls::stream<typename WideType<{DT}, {PE}>::t_TypeInt> l_strX;",
    "hls::stream<typename WideType<{DT}, 1>::t_TypeInt> l_strY;",
    "hls::stream<typename WideType<{DT}, 1>::t_TypeInt> l_strYR;",
    "",
    "trmUp2Stream<{DT}, {PE}>({n}, {a}, l_strA);",
    "vec2TrmUpStream<{DT}, {PE}>({n}, {x}, l_strX);",
    "readVec2Stream<{DT}, 1>({y}, {n}, l_strY);",
    "trmv<{DT}, {LP}>(true, {n}, {alpha}, l_strA, l_strX, {beta}, l_strY, l_strYR);",
    "writeStream2Vec<{DT}, 1>(l_strYR, {n}, {res});"]

/-- The discrete Fourier transform. -/
def fft : Template where
  routine := "fft"
  roles := ["in", "out"]
  dataRole := "in"
  extents := []
  lines := [
    "xf::dsp::fft::fft<fftParams, 0>({in}, {out});"]

/-- The pseudo square root of a matrix. -/
def pseudoSqrt : Template where
  routine := "pseudosqrt"
  roles := ["nrows", "in", "out"]
  dataRole := "in"
  extents := [("size", .dim "in" 0)]
  lines := [
    "xf::solver::pseudosqrt<{DT}, {size}, {unroll}>({nrows}, {in}, {out});"]

/-- The calling sequence of a block. -/
def Template.of : IpKind → Template
  | .amax => vectorReduction "amax"
  | .amin => vectorReduction "amin"
  | .asum => vectorReduction "asum"
  | .axpy => axpy
  | .dot => dot
  | .gbmv => gbmv
  | .gemm => gemm
  | .gemv => gemv
  | .nrm2 => nrm2
  | .scal => scal
  | .swap => swap
  | .symv => symv
  | .trmv => trmv
  | .fft => fft
  | .pseudoSqrt => pseudoSqrt

end HlsEmit.Accelerator
