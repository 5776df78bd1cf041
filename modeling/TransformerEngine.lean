import TransformerEngine.Except
import TransformerEngine.Sequential.Item
import TransformerEngine.Sequential.Split
import TransformerEngine.Sequential.Split.Absorb
import TransformerEngine.Sequential.Split.Finest
import TransformerEngine.Sequential.Split.Coverage
import TransformerEngine.Sequential.Context
import TransformerEngine.Sequential.Unit
import TransformerEngine.Sequential.Pipeline
import TransformerEngine.Sequential.Tensor
import TransformerEngine.Sequential.Function
import TransformerEngine.SequentialNew.Op
import TransformerEngine.SequentialNew.Shape
import TransformerEngine.SequentialNew.Kernel
import TransformerEngine.SequentialNew.Training
import TransformerEngine.SequentialNew.Run
import TransformerEngine.SequentialNew.Residual
import TransformerEngine.SequentialNew.Parallelism
import TransformerEngine.SequentialNew.Network
import TransformerEngine.SequentialNew.Declared
import TransformerEngine.SequentialNew.Saved
import TransformerEngine.SequentialNew.Gradient
import TransformerEngine.SequentialNew.Driver
import TransformerEngine.SequentialNew.WriteOnly
import TransformerEngine.SequentialNew.Errors
import TransformerEngine.Sequential.Python
import TransformerEngine.Sequential.TorchOp
