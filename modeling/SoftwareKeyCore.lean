import SoftwareKeyCore.ArkgP256.HashToField
import SoftwareKeyCore.Brainpool512.GroupLaw
import SoftwareKeyCore.Brainpool512.Signing
import SoftwareKeyCore.CallbackConstructions
import SoftwareKeyCore.CertificateChain.ConfiguredKey
import SoftwareKeyCore.CounterKdf.CounterMode
import SoftwareKeyCore.HybridKem.Binding
import SoftwareKeyCore.PostQuantum.ImportRoutes
import SoftwareKeyCore.PostQuantum.KeyDocuments
import SoftwareKeyCore.PostQuantum.MlDsaConvolution
import SoftwareKeyCore.PostQuantum.MlDsaSigning
import SoftwareKeyCore.RsaKeys.PublicHalf
import SoftwareKeyCore.SecureChannel.Derivations
import SoftwareKeyCore.SecureChannel.Iso7816
import SoftwareKeyCore.SecureChannel.X963Kdf
import SoftwareKeyCore.SecureChannel.YubicoPassword
import SoftwareKeyCore.SoftwareSigning.EcdsaDer
import SoftwareKeyCore.SoftwareSigning.GeneratedKeys
import SoftwareKeyCore.SoftwareSigning.RsaComponents
import SoftwareKeyCore.SoftwareSigning.RsaSignatures
import SoftwareKeyCore.SoftwareSymmetric.CcmFormatting
import SoftwareKeyCore.SoftwareSymmetric.CmacStandard
import SoftwareKeyCore.SoftwareSymmetric.GcmLimits
import SoftwareKeyCore.SoftwareSymmetric.KeyWrapInverse
import SoftwareKeyCore.SoftwareSymmetric.Pkcs7Padding
import SoftwareKeyCore.SoftwareSymmetric.SoftwareCiphers
import SoftwareKeyCore.StatePersistence.Deadlines
import SoftwareKeyCore.StatePersistence.Failure
import SoftwareKeyCore.StatePersistence.LockedSessions
import SoftwareKeyCore.StatePersistence.PathSpelling
