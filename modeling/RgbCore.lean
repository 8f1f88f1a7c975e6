import RgbCore.Ordering
import RgbCore.Strict.Codec
import RgbCore.Strict.Primitives
import RgbCore.Strict.Confined
import RgbCore.Text
import RgbCore.Contract.Seal
import RgbCore.Contract.Witness
import RgbCore.Contract.SealEncoding
import RgbCore.Contract.SealText
import RgbCore.Contract.WitnessText
import RgbCore.Contract.Operations
import RgbCore.Contract.Queries
import RgbCore.Contract.OutpointText
import RgbCore.Contract.Assignments
import RgbCore.Contract.NodeEncoding
import RgbCore.Contract.Commit
import RgbCore.Contract.NodeOutputs
import RgbCore.Validation.State
